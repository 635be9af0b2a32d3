import Mathlib.Data.List.TakeWhile
import ScriptMigration.Grammar.Module
import ScriptMigration.Include.Header
import ScriptMigration.Proofs.Include.Order
import ScriptMigration.Proofs.Text.Name

/-! Linked scripts by name. Which scripts a script includes can be told from the batch and the source
alone: from the names in its header, and from the texts that are found under these names. Which texts
can be read does not depend on the name that a module gets, and the families of keys in headers have no
colon, so two of these are the same exactly if a script is found under both of them. -/
namespace ScriptMigration

section Readable

open Reader

def Reader.Succeeds {α : Type} (reader : Reader α) : Prop :=
  ∀ state, ∃ value after, reader state = .ok value after ∧ after.noted = state.noted

namespace Reader.Succeeds

variable {α β : Type}

theorem pure (value : α) : Succeeds (Pure.pure value : Reader α) := fun _ => ⟨value, _, rfl, rfl⟩

theorem bind {reader : Reader α} {next : α → Reader β} (first : reader.Succeeds)
    (second : ∀ value, (next value).Succeeds) : (reader >>= next).Succeeds := by
  intro state
  obtain ⟨value, middle, read, noted⟩ := first state
  obtain ⟨result, after, readNext, notedNext⟩ := second value middle
  refine ⟨result, after, ?_, notedNext.trans noted⟩
  simp only [Bind.bind, EStateM.bind, read, readNext]

theorem map (f : α → β) {reader : Reader α} (succeeds : reader.Succeeds) :
    (f <$> reader).Succeeds := by
  intro state
  obtain ⟨value, after, read, noted⟩ := succeeds state
  refine ⟨f value, after, ?_, noted⟩
  simp only [Functor.map, EStateM.map, read]

theorem make (shape : Shape Node) (line lastLine : Nat) : (Reader.make shape line lastLine).Succeeds :=
  fun _ => ⟨_, _, rfl, rfl⟩

theorem lastLine : Reader.lastLine.Succeeds := fun _ => ⟨_, _, rfl, rfl⟩

end Reader.Succeeds

namespace ModuleText

theorem constructor?_succeeds (name : String) (body : List Node) :
    (constructor? name body).Succeeds := by
  unfold constructor?
  split
  · exact .pure none
  · exact .bind (.make _ _ _) fun block => .map some (.make _ _ _)

theorem shape_succeeds (name : String) (items : TopLevel) : (shape name items).Succeeds := by
  unfold shape
  split
  · exact .pure _
  · exact .bind (constructor?_succeeds _ _) fun constructor =>
      .bind .lastLine fun last => .make _ _ _

end ModuleText

def parses (text : String) : Bool := (parseModule text "").toOption.isSome

theorem parseModule_isSome (text name : String) :
    (parseModule text name).toOption.isSome = parses text := by
  unfold parses parseModule
  dsimp only
  split
  · rfl
  · simp only [bind, EStateM.bind]
    cases ModuleText.items ((lex text).tokens.length + 1) (.start (lex text)) with
    | error fault state => rfl
    | ok items state =>
      obtain ⟨root, after, shaped, noted⟩ := ModuleText.shape_succeeds name items state
      obtain ⟨other, later, alsoShaped, alsoNoted⟩ := ModuleText.shape_succeeds "" items state
      simp only [shaped, alsoShaped, pure, EStateM.pure, noted, alsoNoted]
      split <;> rfl

end Readable

namespace Text

theorem mem_of_mem_trimChars {text : List Char} {c : Char} (inside : c ∈ trimChars text) :
    c ∈ text := by
  have fromEnd := List.mem_reverse.1 inside
  have back := List.mem_reverse.1 ((List.dropWhile_sublist _).subset fromEnd)
  exact (List.dropWhile_sublist _).subset back

end Text

namespace ScriptKey

def Plain (key : ScriptKey) : Prop := ':' ∉ key.family.toList

theorem plain_of_parse? {text : String} {key : ScriptKey} (parsed : parse? text = some key) :
    key.Plain := by
  unfold parse? at parsed
  dsimp only at parsed
  split at parsed
  · exact nomatch parsed
  · split at parsed
    · exact nomatch parsed
    · obtain rfl := Option.some.inj parsed
      intro inside
      rw [String.toList_ofList] at inside
      have taken := List.mem_takeWhile_imp (Text.mem_of_mem_trimChars inside)
      exact absurd taken (by decide)

theorem toList_lookup (key : ScriptKey) : key.lookup.text.toList =
    key.family.toList.map Char.toLower ++ ':' :: key.name.toList.map Char.toLower := by
  have middle : (":".toList.map Char.toLower) = [':'] := by decide
  simp only [lookup, render, FoldedName.of, String.toList_map, String.toList_append, List.map_append,
    middle, List.append_assoc, List.singleton_append]

theorem colon_not_mem_folded {chars : List Char} (plain : ':' ∉ chars) :
    ':' ∉ chars.map Char.toLower := by
  intro inside
  obtain ⟨c, listed, folded⟩ := List.mem_map.1 inside
  exact plain ((toLower_eq_iff (by decide)).1 folded ▸ listed)

theorem lookup_eq_of_same {left right : ScriptKey} (same : left.same right) :
    left.lookup = right.lookup := by
  rw [ScriptKey.same, Bool.and_eq_true, sameName, sameName, beq_iff_eq, beq_iff_eq] at same
  have families := congrArg (·.text.toList) same.1
  have names := congrArg (·.text.toList) same.2
  simp only [FoldedName.of, String.toList_map] at families names
  have whole : left.lookup.text.toList = right.lookup.text.toList := by
    rw [toList_lookup, toList_lookup, families, names]
  exact congrArg FoldedName.mk (String.toList_inj.1 whole)

theorem same_iff {left right : ScriptKey} (first : left.Plain) (second : right.Plain) :
    left.same right ↔ left.lookup = right.lookup := by
  have family (key : ScriptKey) (plain : key.Plain) : key.lookup.text.toList.takeWhile (· != ':') =
      key.family.toList.map Char.toLower := by
    rw [toList_lookup, List.takeWhile_append_of_pos, List.takeWhile_cons_of_neg (by decide),
      List.append_nil]
    intro c inside
    simpa using fun same : c = ':' => colon_not_mem_folded plain (same ▸ inside)
  refine ⟨lookup_eq_of_same, fun sameLookup => ?_⟩
  rw [same, Bool.and_eq_true, sameName, sameName, beq_iff_eq, beq_iff_eq]
  have families : left.family.toList.map Char.toLower = right.family.toList.map Char.toLower := by
    rw [← family left first, ← family right second, sameLookup]
  have whole := congrArg (·.text.toList) sameLookup
  simp only [toList_lookup, families, List.append_cancel_left_eq, List.cons.injEq, true_and] at whole
  constructor
  · exact congrArg FoldedName.mk (String.toList_inj.1 (by
      rw [String.toList_map, String.toList_map, families]))
  · exact congrArg FoldedName.mk (String.toList_inj.1 (by
      rw [String.toList_map, String.toList_map, whole]))

end ScriptKey

def HeaderItem.Plain : HeaderItem → Prop
  | .entry named => named.key.Plain
  | .fault _ => True

namespace Header

theorem plain_of_segment? {line : Nat} {text : List Char} {item : HeaderItem}
    (found : segment? line text = some item) : item.Plain := by
  unfold segment? at found
  dsimp only at found
  split at found
  · exact nomatch found
  · split at found
    · rename_i key parsed
      obtain rfl := Option.some.inj found
      exact ScriptKey.plain_of_parse? parsed
    · obtain rfl := Option.some.inj found
      exact trivial

theorem plain_of_mem_items {lines : List (String × Nat)} {item : HeaderItem}
    (listed : item ∈ items lines) : item.Plain := by
  fun_induction items lines with
  | case1 => exact absurd listed List.not_mem_nil
  | case2 text line rest trimmed blank ih => exact ih listed
  | case3 text line rest trimmed blank comment isComment ih =>
    rcases List.mem_append.1 listed with here | later
    · unfold commentItems at here
      dsimp only at here
      split at here
      · obtain ⟨segment, -, found⟩ := List.mem_filterMap.1 here
        exact plain_of_segment? found
      · exact absurd here List.not_mem_nil
    · exact ih later
  | case4 => exact absurd listed List.not_mem_nil

end Header

theorem IncludeHeader.plain_of_mem {text : String} {entry : IncludeEntry}
    (listed : entry ∈ (IncludeHeader.read text).entries) : entry.key.Plain := by
  obtain ⟨item, inside, found⟩ := List.mem_filterMap.1 listed
  have plain := Header.plain_of_mem_items inside
  cases item with
  | entry other =>
    obtain rfl := Option.some.inj found
    exact plain
  | fault _ => exact nomatch found

open Relation (ReflTransGen TransGen)

def ScriptReader.Honest {σ : Type} (read : ScriptReader σ) : Prop :=
  ∀ id script state, (read id script state).1.toOption.isSome = parses script.text

theorem ScriptReader.direct_honest : ScriptReader.direct.Honest := fun _ _ _ =>
  parseModule_isSome ..

def headerNames (text : String) : List FoldedName :=
  (IncludeHeader.read text).entries.map (·.key.lookup)

namespace ScriptStore

section Names

variable (store : ScriptStore) (source : ScriptSource)

/-- The text that is found under a name: that of the store, or else the one that the source offers. -/
def textOf? (name : FoldedName) : Option String :=
  ((store.scripts.find? (·.key.lookup == name)).map (·.text)).or
    ((source.entries.reverse.find? (·.1.lookup == name)).map (·.2.text))

def acceptsName (name : FoldedName) : Bool := (store.textOf? source name).any parses

def includesName (name other : FoldedName) : Bool :=
  other != name && (store.textOf? source name).any (fun text => (headerNames text).contains other) &&
    store.acceptsName source other

def nameOf? (id : ScriptId) : Option FoldedName := (store.get? id).map (·.key.lookup)

end Names

variable {store after : ScriptStore} {source : ScriptSource}

theorem getElem?_names (store : ScriptStore) (id : ScriptId) :
    store.names[id.index]? = store.nameOf? id := List.getElem?_map ..

theorem nameOf?_of_get? {id : ScriptId} {script : Script} (listed : store.get? id = some script) :
    store.nameOf? id = some script.key.lookup := by
  rw [nameOf?, listed]
  rfl

theorem nameOf?_inj (once : store.names.Nodup) {left right : ScriptId} {name : FoldedName}
    (first : store.nameOf? left = some name) (second : store.nameOf? right = some name) :
    left = right := by
  rw [← getElem?_names] at first second
  obtain ⟨bound, -⟩ := List.getElem?_eq_some_iff.1 first
  rcases left with ⟨index⟩
  exact congrArg ScriptId.mk ((List.getElem?_inj bound once).1 (first.trans second.symm))

theorem nameOf?_of_find? {key : ScriptKey} {id : ScriptId} (found : store.find? key = some id) :
    store.nameOf? id = some key.lookup := by
  obtain ⟨script, listed, same⟩ := get?_of_find? found
  rw [nameOf?_of_get? listed, same]

theorem find?_script (once : store.names.Nodup) {script : Script} (listed : script ∈ store.scripts) :
    store.scripts.find? (·.key.lookup == script.key.lookup) = some script := by
  cases found : store.scripts.find? (·.key.lookup == script.key.lookup) with
  | none => simpa using List.find?_eq_none.1 found script listed
  | some other =>
    have same : other.key.lookup = script.key.lookup := by simpa using List.find?_some found
    exact congrArg some (List.inj_on_of_nodup_map once (List.mem_of_find?_eq_some found) listed same)

/-- A linked store with the texts of the batch and the source, each found under one name. -/
structure Faithful (store : ScriptStore) (source : ScriptSource) (after : ScriptStore) : Prop where
  once : after.names.Nodup
  grown : ∀ name ∈ store.names, name ∈ after.names
  text : ∀ {id script}, after.get? id = some script →
    store.textOf? source script.key.lookup = some script.text
  reading : ∀ {id script}, after.get? id = some script →
    script.reading = .unread ∨ script.isValid = parses script.text
  key : ∀ {id script}, after.get? id = some script → (∃ old ∈ store.scripts, old.key = script.key) ∨
    script.key.lookup ∉ store.names ∧ script.key.Plain

namespace Faithful

theorem init (source : ScriptSource) (distinct : store.names.Nodup)
    (unread : ∀ script ∈ store.scripts, script.reading = .unread) : Faithful store source store := by
  refine ⟨distinct, fun _ known => known, fun {id script} listed => ?_, fun {id script} listed => ?_,
    fun {id script} listed => ?_⟩
  · rw [textOf?, find?_script distinct (List.mem_of_getElem? listed)]
    rfl
  · exact .inl (unread script (List.mem_of_getElem? listed))
  · exact .inl ⟨script, List.mem_of_getElem? listed, rfl⟩

theorem ofReading (faithful : Faithful store source after) {id : ScriptId} {script : Script}
    (listed : after.get? id = some script) {reading : Reading}
    (honest : ({ script with reading } : Script).isValid = parses script.text) :
    Faithful store source (after.setReading id reading) := by
  have names : (after.setReading id reading).names = after.names :=
    names_modify after id fun _ => rfl
  have cases {other : ScriptId} {found : Script}
      (isFound : (after.setReading id reading).get? other = some found) :
      after.get? other = some found ∨ other = id ∧ found = { script with reading } := by
    rw [setReading, get?_modify] at isFound
    split at isFound
    · rename_i same
      rw [same, listed] at isFound
      exact .inr ⟨same, (Option.some.inj isFound).symm⟩
    · exact .inl isFound
  refine ⟨names ▸ faithful.once, names ▸ faithful.grown, fun isFound => ?_, fun isFound => ?_,
    fun isFound => ?_⟩
  · rcases cases isFound with old | ⟨-, rfl⟩
    · exact faithful.text old
    · exact (faithful.text listed :)
  · rcases cases isFound with old | ⟨-, rfl⟩
    · exact faithful.reading old
    · exact .inr honest
  · rcases cases isFound with old | ⟨-, rfl⟩
    · exact faithful.key old
    · exact (faithful.key listed :)

theorem ofAdd (faithful : Faithful store source after) {key : ScriptKey}
    (absent : after.find? key = none) {found : FetchedScript}
    (offered : source.find? key = some found) (plain : key.Plain) : Faithful store source
      ⟨after.scripts ++ [({ key, plugin := found.plugin, text := found.text } : Script)]⟩ := by
  let new : Script := { key, plugin := found.plugin, text := found.text }
  have unknown := find?_eq_none_iff.1 absent
  have cases {other : ScriptId} {script : Script}
      (isFound : get? ⟨after.scripts ++ [new]⟩ other = some script) :
      after.get? other = some script ∨ script = new := by
    rcases Nat.lt_or_ge other.index after.scripts.length with old | later
    · rw [get?, List.getElem?_append_left old] at isFound
      exact .inl isFound
    · rw [get?, List.getElem?_append_right later] at isFound
      exact .inr (List.mem_singleton.1 (List.mem_of_getElem? isFound))
  refine ⟨?_, fun name known => ?_, fun isFound => ?_, fun isFound => ?_, fun isFound => ?_⟩
  · rw [names, List.map_append, List.map_singleton]
    exact List.nodup_append'.2 ⟨faithful.once, List.nodup_singleton _, fun name old isNew =>
      unknown (List.mem_singleton.1 isNew ▸ old)⟩
  · rw [names, List.map_append]
    exact List.mem_append_left _ (faithful.grown name known)
  · rcases cases isFound with old | rfl
    · exact faithful.text old
    · have none : store.scripts.find? (·.key.lookup == key.lookup) = none := by
        refine List.find?_eq_none.2 fun script listed same => unknown (faithful.grown _ ?_)
        exact List.mem_map.2 ⟨script, listed, by simpa using same⟩
      obtain ⟨entry, isEntry, rfl⟩ := Option.map_eq_some_iff.1 offered
      rw [textOf?, none, Option.map_none, Option.none_or, isEntry]
      rfl
  · rcases cases isFound with old | rfl
    · exact faithful.reading old
    · exact .inl rfl
  · rcases cases isFound with old | rfl
    · exact faithful.key old
    · exact .inr ⟨fun known => unknown (faithful.grown _ known), plain⟩

end Faithful

end ScriptStore

namespace LinkState

variable {σ : Type} {read : ScriptReader σ} {source : ScriptSource} {state : LinkState σ}

def verdict (read : ScriptReader σ) (id : ScriptId) (script : Script) (reader : σ) : Reading :=
  match (read id script reader).1 with
  | .ok module => .read (.ofModule module)
  | .error faults => .faulty faults

section Keeps

/- What is kept when a script is read and when one is fetched is kept by linking. -/
variable {P : ScriptStore → Prop}
  (reads : ∀ {store : ScriptStore} {id script} reader, P store → store.get? id = some script →
    script.reading = .unread → P (store.setReading id (verdict read id script reader)))
  (adds : ∀ {store : ScriptStore} {text entry found}, P store →
    entry ∈ (IncludeHeader.read text).entries → store.find? entry.key = none →
    source.find? entry.key = some found → P ⟨store.scripts ++
      [({ key := entry.key, plugin := found.plugin, text := found.text } : Script)]⟩)

include reads in
theorem readScript_keeps (id : ScriptId) (holds : P state.store) :
    P (readScript read id state).store := by
  unfold readScript
  split
  · exact holds
  · rename_i script listed
    split
    · exact holds
    · exact holds
    · rename_i unread
      have kept := reads state.reader holds listed unread
      unfold verdict at kept
      split
      · rename_i module reader result
        rw [result] at kept
        exact kept
      · rename_i faults reader result
        rw [result] at kept
        exact kept

include adds in
theorem fetch_keeps {text : String} {entry : IncludeEntry}
    (listed : entry ∈ (IncludeHeader.read text).entries) (holds : P state.store) :
    P (fetch source entry.key state).2.store := by
  unfold fetch
  split
  · exact holds
  · rename_i absent
    dsimp only
    split
    · exact holds
    · rename_i found offered
      rw [ScriptStore.add_of_none absent]
      exact adds holds listed absent offered

include reads adds

theorem link_keeps (bound : Nat) (id : ScriptId) (holds : P state.store) :
    P (link read source bound id state).store := by
  induction bound generalizing id state with
  | zero => exact holds
  | succ bound ih =>
    have visited : P (readScript read id { state with visited := id :: state.visited }).store :=
      readScript_keeps reads id holds
    by_cases known : id ∈ state.visited
    · rw [link, if_pos (by simpa using known)]
      exact holds
    cases listed : (readScript read id { state with visited := id :: state.visited }).store.get? id with
    | none =>
      rw [link, if_neg (by simpa using known)]
      dsimp only
      rw [listed]
      exact visited
    | some script =>
      obtain ⟨diagnostics, unfolds⟩ := link_succ read source bound known listed
      rw [unfolds _ rfl]
      dsimp only
      refine List.foldlRecOn (motive := fun reached : List ScriptId × LinkState σ => P reached.2.store) _ _ visited
        fun reached kept entry among => ?_
      have fetched := fetch_keeps adds (List.mem_filter.1 among).1 kept
      unfold follow
      rcases found : fetch source entry.key reached.2 with ⟨target?, next⟩
      rw [found] at fetched
      cases target? with
      | none => exact fetched
      | some target =>
        dsimp only
        split <;> exact ih target fetched

end Keeps

end LinkState

namespace ScriptStore

section Linked

variable {σ : Type} {store : ScriptStore} {read : ScriptReader σ} {source : ScriptSource}
  {roots : List ScriptId}

theorem Faithful.ofVerdict {after : ScriptStore} (faithful : Faithful store source after)
    (honest : read.Honest) {id : ScriptId} {script : Script} (listed : after.get? id = some script)
    (reader : σ) :
    Faithful store source (after.setReading id (LinkState.verdict read id script reader)) := by
  refine faithful.ofReading listed ?_
  have parsed := honest id script reader
  rw [← parsed]
  unfold LinkState.verdict
  cases (read id script reader).1 <;> rfl

theorem linkState_faithful (reader : σ) (honest : read.Honest) (distinct : store.names.Nodup)
    (unread : ∀ script ∈ store.scripts, script.reading = .unread) :
    Faithful store source (store.linkState read reader source roots).store := by
  refine List.foldlRecOn (motive := fun state : LinkState σ => Faithful store source state.store)
    roots _ (Faithful.init source distinct unread) fun state faithful root _ => ?_
  refine LinkState.link_keeps (fun reader kept listed _ => kept.ofVerdict honest listed reader)
    (fun kept listed absent offered => ?_) _ root faithful
  exact kept.ofAdd absent offered (IncludeHeader.plain_of_mem listed)

end Linked

end ScriptStore

end ScriptMigration
