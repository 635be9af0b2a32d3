import ScriptMigration.Proofs.Include.Readers

/-! Reading through a cache. A cache whose entries came from some texts, of which no two have one
digest, gives for each of these texts what parsing it gives; so a batch is linked as if every text were
parsed anew. -/
namespace ScriptMigration

def Digest.TellsApart (texts : List String) : Prop :=
  ∀ left ∈ texts, ∀ right ∈ texts, ofText left = ofText right → left = right

namespace WeakCache

variable {κ ν : Type} [BEq κ] {cache : WeakCache κ ν} {alive : ν → Bool} {key : κ}
  {value : ν}

theorem entries_get : (cache.get alive key).2.entries = cache.entries := by
  unfold get
  split
  · rfl
  · split <;> rfl

theorem mem_of_get [LawfulBEq κ] (found : (cache.get alive key).1 = some value) :
    (key, value) ∈ cache.entries := by
  unfold get at found
  split at found
  · exact nomatch found
  · rename_i entry isEntry
    split at found
    · obtain rfl := Option.some.inj found
      have same : entry.1 = key := by simpa using List.find?_some isEntry
      exact same ▸ List.mem_of_find?_eq_some isEntry
    · exact nomatch found

theorem mem_insert {entry : κ × ν} (listed : entry ∈ (cache.insert alive key value).entries) :
    entry = (key, value) ∨ entry ∈ cache.entries := by
  have inside : entry ∈ (key, value) :: cache.entries.filter (!·.1 == key) := by
    unfold insert at listed
    dsimp only at listed
    split at listed
    · exact (List.mem_filter.1 listed).1
    · exact listed
  rcases List.mem_cons.1 inside with new | old
  · exact .inl new
  · exact .inr (List.mem_filter.1 old).1

end WeakCache

def ParsedModule.unnumbered (parsed : ParsedModule) : ParsedModule := ⟨0, parsed.module⟩

def unnumberedSources (sources : List (ScriptId × ParsedModule)) : List (ScriptId × ParsedModule) :=
  sources.map fun entry => (entry.1, entry.2.unnumbered)

theorem find?_unnumberedSources (sources : List (ScriptId × ParsedModule)) (id : ScriptId) :
    (unnumberedSources sources).find? (·.1 == id) =
      (sources.find? (·.1 == id)).map fun entry => (entry.1, entry.2.unnumbered) := by
  rw [unnumberedSources, List.find?_map]
  rfl

namespace ModuleCache

def Faithful (texts : List String) (cache : ModuleCache) : Prop :=
  ∀ entry ∈ cache.modules.entries, ∃ text ∈ texts,
    entry.1.2 = Digest.ofText text ∧ parseModule text entry.1.1 = .ok entry.2.module

theorem empty_faithful (texts : List String) : Faithful texts {} := by
  intro entry listed
  exact absurd listed List.not_mem_nil

theorem Faithful.mono {texts more : List String} {cache : ModuleCache} (faithful : cache.Faithful texts)
    (subset : ∀ text ∈ texts, text ∈ more) : cache.Faithful more := by
  intro entry listed
  obtain ⟨text, known, parsed⟩ := faithful entry listed
  exact ⟨text, subset text known, parsed⟩

/-- Parsing through a cache gives one of its entries, or else what parsing gives. A module that is parsed
is put before the entries. -/
theorem parse_cases (cache : ModuleCache) (held : Holding) (text name : String) :
    (∃ parsed, (cache.parse held text name).1 = .ok parsed ∧
      ((name, Digest.ofText text), parsed) ∈ cache.modules.entries ∧
      (cache.parse held text name).2.modules.entries = cache.modules.entries) ∨
    (∃ faults, (cache.parse held text name).1 = .error faults ∧
      parseModule text name = .error faults ∧
      (cache.parse held text name).2.modules.entries = cache.modules.entries) ∨
    ∃ parsed, (cache.parse held text name).1 = .ok parsed ∧
      parseModule text name = .ok parsed.module ∧
      ∀ entry ∈ (cache.parse held text name).2.modules.entries,
        entry = ((name, Digest.ofText text), parsed) ∨ entry ∈ cache.modules.entries := by
  have entries : (cache.modules.get (held ·.ticket) (name, Digest.ofText text)).2.entries =
      cache.modules.entries := WeakCache.entries_get
  unfold ModuleCache.parse
  dsimp only
  rcases result : cache.modules.get (held ·.ticket) (name, Digest.ofText text) with ⟨found, modules⟩
  rw [result] at entries
  cases found with
  | some parsed =>
    refine .inl ⟨parsed, rfl, ?_, entries⟩
    apply WeakCache.mem_of_get
    rw [result]
  | none =>
    dsimp only
    cases isParsed : parseModule text name with
    | error faults => exact .inr (.inl ⟨faults, rfl, rfl, entries⟩)
    | ok module =>
      exact .inr (.inr ⟨_, rfl, rfl, fun entry inside => entries ▸ WeakCache.mem_insert inside⟩)

theorem Faithful.parse {texts : List String} {cache : ModuleCache} (faithful : cache.Faithful texts)
    (apart : Digest.TellsApart texts) {text : String} (known : text ∈ texts) (held : Holding)
    (name : String) :
    (cache.parse held text name).1.map ParsedModule.module = parseModule text name ∧
      (cache.parse held text name).2.Faithful texts := by
  rcases cache.parse_cases held text name with ⟨parsed, hit, listed, entries⟩ |
    ⟨faults, failed, isParsed, entries⟩ | ⟨parsed, new, isParsed, entries⟩
  · obtain ⟨other, isKnown, sameDigest, isParsed⟩ := faithful _ listed
    obtain rfl := apart text known other isKnown sameDigest
    rw [hit]
    exact ⟨isParsed.symm, fun entry inside => faithful entry (entries ▸ inside)⟩
  · rw [failed, isParsed]
    exact ⟨rfl, fun entry inside => faithful entry (entries ▸ inside)⟩
  · rw [new, isParsed]
    refine ⟨rfl, fun entry inside => ?_⟩
    rcases entries entry inside with rfl | old
    · exact ⟨text, known, rfl, isParsed⟩
    · exact faithful entry old

end ModuleCache

/-- Parses every text anew and notes which parse each script has. -/
def ScriptReader.noting : ScriptReader (List (ScriptId × ParsedModule)) := fun id script sources =>
  match parseModule script.text script.key.name with
  | .ok module => (.ok module, (id, ⟨0, module⟩) :: sources)
  | .error faults => (.error faults, sources)

theorem ScriptReader.noting_honest : noting.Honest := fun _ script _ => by
  rw [← parseModule_isSome script.text script.key.name]
  unfold noting
  cases parseModule script.text script.key.name <;> rfl

/-- A script that was read is what its text gives, and its parse is noted. -/
def ScriptStore.Noted (store : ScriptStore) (sources : List (ScriptId × ParsedModule))
    (_ : List ScriptKey) : Prop :=
  ∀ id script, store.get? id = some script → script.reading = .unread ∨
    script.reading = script.readAnew ∧ ∀ module, parseModule script.text script.key.name = .ok module →
      sources.find? (·.1 == id) = some (id, ⟨0, module⟩)

theorem ScriptReader.noting_verdict (id : ScriptId) (script : Script)
    (sources : List (ScriptId × ParsedModule)) :
    LinkState.verdict noting id script sources = script.readAnew := by
  unfold LinkState.verdict noting Script.readAnew
  cases parseModule script.text script.key.name <;> rfl

theorem ScriptReader.noting_noted (source : ScriptSource) (texts : List String) :
    noting.Mimics noting id source texts ScriptStore.Noted := by
  refine ⟨fun {store id script sources asked} noted listed _ unread => ⟨rfl, ?_⟩,
    fun noted _ _ => noted, fun {store sources asked key found} noted absent _ id script listed => ?_⟩
  · intro other entry isEntry
    rw [noting_verdict, ScriptStore.setReading, ScriptStore.get?_modify] at isEntry
    split at isEntry
    · rename_i same
      subst same
      rw [listed] at isEntry
      obtain rfl := Option.some.inj isEntry
      refine .inr ⟨rfl, fun module parsed => ?_⟩
      have isParsed : parseModule script.text script.key.name = .ok module := parsed
      unfold noting
      rw [isParsed]
      exact List.find?_cons_of_pos (beq_self_eq_true _)
    · rename_i differs
      refine (noted other entry isEntry).imp_right ?_
      rintro ⟨isRead, isNoted⟩
      refine ⟨isRead, fun module parsed => ?_⟩
      have skipped : (id == other) = false := by
        rw [beq_eq_false_iff_ne]
        exact fun same => differs same.symm
      have before := isNoted module parsed
      unfold noting
      split
      · rw [List.find?_cons_of_neg (by rw [skipped]; exact Bool.false_ne_true), before]
      · exact before
  · rcases Nat.lt_or_ge id.index store.scripts.length with old | later
    · rw [ScriptStore.get?, List.getElem?_append_left old] at listed
      exact noted id script listed
    · rw [ScriptStore.get?, List.getElem?_append_right later] at listed
      obtain rfl := List.mem_singleton.1 (List.mem_of_getElem? listed)
      exact .inl rfl

namespace CachingReader

def unnumbered (reader : CachingReader) : List (ScriptId × ParsedModule) :=
  unnumberedSources reader.sources

def Sure (texts : List String) (_ : ScriptStore) (reader : CachingReader) (_ : List ScriptKey) :
    Prop := reader.cache.Faithful texts

variable {texts : List String} {source : ScriptSource}

theorem read_spec (apart : Digest.TellsApart texts) (held : ModuleCache.Holding) (id : ScriptId)
    {script : Script} (known : script.text ∈ texts) {reader : CachingReader}
    (faithful : reader.cache.Faithful texts) :
    ScriptReader.noting id script reader.unnumbered =
        ((read held id script reader).1, (read held id script reader).2.unnumbered) ∧
      (read held id script reader).2.cache.Faithful texts := by
  obtain ⟨same, later⟩ := faithful.parse apart known (reader.holds held) script.key.name
  unfold ScriptReader.noting read
  rw [← same]
  rcases result : reader.cache.parse (reader.holds held) script.text script.key.name with
    ⟨faults | parsed, cache⟩ <;>
  · rw [result] at later
    exact ⟨rfl, later⟩

theorem read_mimics (apart : Digest.TellsApart texts) (held : ModuleCache.Holding) :
    (read held).Mimics ScriptReader.noting unnumbered source texts (Sure texts) where
  reads := fun faithful _ known _ => read_spec apart held _ known faithful
  misses := fun faithful _ _ => faithful
  fetches := fun faithful _ _ => faithful

end CachingReader

def textsOf (inputs : List BatchEntry) (source : ScriptSource) : List String :=
  (ScriptStore.linkInputs inputs .noting [] source).store.texts

namespace ScriptStore

theorem texts_linkInputs {σ : Type} (inputs : List BatchEntry) (read : ScriptReader σ) (reader : σ)
    (source : ScriptSource) : (linkInputs inputs read reader source).store.texts =
      (inputsState inputs read reader source).store.texts := by
  refine List.ext_getElem? fun index => ?_
  have same := get?_linkInputs inputs read reader source ⟨index⟩
  rw [get?, get?] at same
  rw [texts, texts, List.getElem?_map, List.getElem?_map, same, Option.map_map]
  rfl

/-- A batch that is read through a cache is linked as if all texts were parsed anew, and the cache
stays faithful. -/
theorem linkInputs_caching {texts : List String} (apart : Digest.TellsApart texts)
    {inputs : List BatchEntry} {source : ScriptSource} (known : textsOf inputs source ⊆ texts)
    {cache : ModuleCache} (faithful : cache.Faithful texts) (held : ModuleCache.Holding) :
    (linkInputs inputs (CachingReader.read held) { cache } source).mapReader
        CachingReader.unnumbered = linkInputs inputs ScriptReader.noting [] source ∧
      (linkInputs inputs (CachingReader.read held) { cache } source).reader.cache.Faithful texts := by
  have mimics : (CachingReader.read held).Mimics _ _ source _ _ := CachingReader.read_mimics apart held
  have sure : CachingReader.Sure texts (ofInputs inputs).1 { cache } [] := faithful
  rw [textsOf, texts_linkInputs] at known
  exact ⟨(link_mimics mimics sure known).symm, (linkState_mimics mimics sure known).1⟩

/-- In a batch whose texts were all parsed anew, each script is what its text gives, and its parse is
noted. -/
theorem linkInputs_noting {inputs : List BatchEntry} {source : ScriptSource} {id : ScriptId}
    {script : Script}
    (listed : (linkInputs inputs .noting [] source).store.get? id = some script) :
    script.reading = script.readAnew ∧ ∀ module,
      parseModule script.text script.key.name = .ok module →
      (linkInputs inputs .noting [] source).reader.find? (·.1 == id) = some (id, ⟨0, module⟩) := by
  have start : Noted (ofInputs inputs).1 [] [] := fun other entry isEntry =>
    .inl (ofInputs_unread inputs entry (List.mem_of_getElem? isEntry))
  have noted := (linkState_mimics (ScriptReader.noting_noted source _) start
    (List.Subset.refl (inputsState inputs .noting [] source).store.texts)).1
  have wasRead := wasRead_linkInputs inputs .noting [] source listed
  rw [get?_linkInputs] at listed
  obtain ⟨old, isOld, rfl⟩ := Option.map_eq_some_iff.1 listed
  exact (noted id old isOld).resolve_left wasRead

end ScriptStore

end ScriptMigration
