import ScriptMigration.Migration.Session
import ScriptMigration.Proofs.Migration.Caching
import ScriptMigration.Proofs.Migration.Run

/-! What went before a migration. The cache of parses changes how often texts are parsed and nothing
else: whatever a session did and whatever of it was kept, the next migration gives what a new session
gives that is cancelled or not like this one. -/
namespace ScriptMigration

def ScriptResult.unnumbered (result : ScriptResult) : ScriptResult :=
  { result with source := result.source.unnumbered }

namespace Migration

def unnumbered (migration : Migration) : Migration :=
  { migration with scripts := migration.scripts.map (·.unnumbered) }

theorem take_unnumbered (migration : Migration) (key : ScriptKey) :
    migration.unnumbered.take key = (migration.take key).map (·.unnumbered) := by
  unfold take get unnumbered
  dsimp only
  cases migration.failed.find? (·.1.same key) with
  | some entry => rfl
  | none =>
    have same : (fun result : ScriptResult => result.key.same key) ∘ ScriptResult.unnumbered =
      fun result => result.key.same key := rfl
    rw [List.find?_map, same]
    cases migration.scripts.find? fun result => result.key.same key <;> rfl

theorem mem_of_take {migration : Migration} {key : ScriptKey} {result : ScriptResult}
    (taken : migration.take key = .ok result) : result ∈ migration.scripts := by
  unfold take get at taken
  split at taken
  · exact nomatch taken
  · split at taken
    · rename_i found
      obtain rfl := Except.ok.inj taken
      exact List.mem_of_find?_eq_some found
    · exact nomatch taken

end Migration

def MigrationReport.told {α : Type} (report : MigrationReport α) (unnumber : α → α) :
    Except MigrationFailure α × MigrationProgress := (report.result.map unnumber, report.progress)

namespace Migrator

variable (migrator : Migrator) (interrupt : Interrupt)

theorem assemble_unnumbered (run : MigrationRun) (sources : List (ScriptId × ParsedModule))
    (returns : List (ScriptId × ReturnCounts)) (statics : List ScriptId) (id : ScriptId) :
    (migrator.assemble run sources returns statics id).map (·.unnumbered) =
      migrator.assemble run (unnumberedSources sources) returns statics id := by
  unfold assemble
  cases run.store.get? id with
  | none => rfl
  | some script =>
    dsimp only [Option.bind_eq_bind, Option.bind_some]
    cases script.draft? with
    | none => rfl
    | some draft =>
      rw [find?_unnumberedSources]
      cases sources.find? (·.1 == id) <;> rfl

theorem finish_unnumbered (run : MigrationRun) (order : List ScriptId)
    (sources : List (ScriptId × ParsedModule)) :
    (migrator.finish run order sources).unnumbered =
      migrator.finish run order (unnumberedSources sources) := by
  unfold finish Migration.unnumbered
  dsimp only
  rw [List.map_filterMap]
  congr 1
  exact List.filterMap_congr fun id _ => migrator.assemble_unnumbered ..

theorem migrateLinked_unnumbered {σ : Type} (linked : Linked σ)
    (sources : List (ScriptId × ParsedModule)) :
    ((migrator.migrateLinked interrupt linked sources).1.map (·.unnumbered),
        (migrator.migrateLinked interrupt linked sources).2) =
      migrator.migrateLinked interrupt linked
        (unnumberedSources sources) := by
  unfold migrateLinked
  split
  · rfl
  · split
    · rfl
    · split
      · rfl
      · split
        · rfl
        · rw [← finish_unnumbered]
          rfl

def migrateAnew (inputs : List BatchEntry) (source : ScriptSource) :
    Except MigrationFailure Migration × MigrationProgress :=
  if interrupt {} then (.error (.cancelled .link), {})
  else
    migrator.migrateLinked interrupt (ScriptStore.linkInputs inputs .noting [] source)
      (ScriptStore.linkInputs inputs .noting [] source).reader

/-- A migration with a faithful cache gives what one gives that parses every text, and leaves the cache
faithful. -/
theorem migrate_anew {texts : List String} (apart : Digest.TellsApart texts)
    (faithful : migrator.cache.Faithful texts) {inputs : List BatchEntry} {source : ScriptSource}
    (known : textsOf inputs source ⊆ texts) (held : ModuleCache.Holding) :
    (migrator.migrate interrupt held inputs source).told Migration.unnumbered =
      migrator.migrateAnew interrupt inputs source ∧
    (migrator.migrate interrupt held inputs source).cache.Faithful texts := by
  unfold migrateAnew
  cases starts : interrupt {} with
  | true =>
    unfold migrate
    rw [if_pos starts]
    exact ⟨rfl, faithful⟩
  | false =>
    rw [migrator.migrate_eq interrupt held inputs source starts]
    obtain ⟨same, later⟩ := ScriptStore.linkInputs_caching apart known faithful held
    refine ⟨?_, later⟩
    rw [if_neg Bool.false_ne_true, ← same]
    exact migrator.migrateLinked_unnumbered ..

def Pristine (inputs : List BatchEntry) (source : ScriptSource) (result : ScriptResult) : Prop :=
  ∃ text, BatchEntry.textOf? inputs source result.key.lookup = some text ∧
    parseModule text result.key.name = .ok result.source.module

theorem migrateAnew_pristine {inputs : List BatchEntry} {source : ScriptSource}
    {migration : Migration} (isOk : (migrator.migrateAnew interrupt inputs source).1 = .ok migration)
    {result : ScriptResult} (listed : result ∈ migration.scripts) : Pristine inputs source result := by
  unfold migrateAnew at isOk
  split at isOk
  · cases isOk
  rcases migrator.migrateLinked_cases interrupt _ _ with ⟨step, stopped⟩ | done
  · cases isOk.symm.trans stopped
  obtain rfl := Except.ok.inj (isOk.symm.trans done)
  obtain ⟨ids, tells⟩ := migrator.finish_resolvedRun _ rfl
    (ScriptStore.linkInputs inputs .noting [] source).reader
  obtain ⟨script, isScript, key, -, noted⟩ := tells result listed
  obtain ⟨draft, found⟩ := ScriptStore.exists_draft_linkInputs inputs .noting [] source
    (ids ▸ List.mem_map_of_mem listed)
  obtain ⟨anew, parsed⟩ := ScriptStore.linkInputs_noting isScript
  refine ⟨script.text, ?_, ?_⟩
  · rw [key]
    exact ScriptStore.text_linkInputs inputs [] source ScriptReader.noting_honest isScript
  · rw [ScriptStore.draft?, isScript, Option.bind_some, Script.draft?, anew, Script.readAnew] at found
    rw [key]
    cases isParsed : parseModule script.text script.key.name with
    | error faults =>
      rw [isParsed] at found
      cases found
    | ok module => rw [noted _ (parsed module isParsed)]

end Migrator

/-- What is done with a session. Whatever is kept, of earlier results or not, holds its parses until it
is dropped. -/
inductive SessionEvent where
  | migrate (stop : Interrupt) (inputs : List BatchEntry) (source : ScriptSource)
  | migrateOne (stop : Interrupt) (input : BatchEntry) (source : ScriptSource)
  | keep (name : String) (migration : Migration)
  | drop (name : String)
  | cancel
  | reset

def SessionEvent.texts : SessionEvent → List String
  | migrate _ inputs source => textsOf inputs source
  | migrateOne _ input source => textsOf [input] source
  | _ => []

namespace MigrationSession

def perform (session : MigrationSession) : SessionEvent → MigrationSession
  | .migrate stop inputs source => (session.migrate stop inputs source).2
  | .migrateOne stop input source => (session.migrateOne stop input source).2
  | .keep name migration => session.keep name migration
  | .drop name => (session.drop name).2
  | .cancel => { session with cancelled := true }
  | .reset => { session with cancelled := false }

def unused (symbols : SymbolTable) (options : MigrationOptions) (cancelled : Bool) :
    MigrationSession where
  migrator := { symbols, options }
  cancelled

def ofHistory (symbols : SymbolTable) (options : MigrationOptions) (history : List SessionEvent) :
    MigrationSession := history.foldl perform (unused symbols options false)

/-- A session of the given symbols and options whose cache is faithful. -/
structure Sound (symbols : SymbolTable) (options : MigrationOptions) (texts : List String)
    (session : MigrationSession) : Prop where
  symbols : session.migrator.symbols = symbols
  options : session.migrator.options = options
  faithful : session.migrator.cache.Faithful texts

variable {symbols : SymbolTable} {options : MigrationOptions} {texts : List String}
  {session : MigrationSession}

theorem Sound.perform (sound : session.Sound symbols options texts) (apart : Digest.TellsApart texts)
    {event : SessionEvent} (known : event.texts ⊆ texts) :
    (session.perform event).Sound symbols options texts := by
  cases event with
  | migrate stop inputs source =>
    exact ⟨sound.symbols, sound.options,
      (session.migrator.migrate_anew _ apart sound.faithful known session.holds).2⟩
  | migrateOne stop input source =>
    exact ⟨sound.symbols, sound.options,
      (session.migrator.migrate_anew _ apart sound.faithful known session.holds).2⟩
  | keep name migration => exact ⟨sound.symbols, sound.options, sound.faithful⟩
  | drop name => exact ⟨sound.symbols, sound.options, sound.faithful⟩
  | cancel => exact ⟨sound.symbols, sound.options, sound.faithful⟩
  | reset => exact ⟨sound.symbols, sound.options, sound.faithful⟩

theorem unused_sound (cancelled : Bool) :
    (unused symbols options cancelled).Sound symbols options texts :=
  ⟨rfl, rfl, ModuleCache.empty_faithful texts⟩

theorem Sound.history (sound : session.Sound symbols options texts)
    (apart : Digest.TellsApart texts) {history : List SessionEvent}
    (known : ∀ event ∈ history, event.texts ⊆ texts) :
    (history.foldl MigrationSession.perform session).Sound symbols options texts := by
  induction history generalizing session with
  | nil => exact sound
  | cons event rest ih =>
    have first := sound.perform apart (known event (List.mem_cons_self ..))
    exact ih first fun other listed => known other (List.mem_cons_of_mem _ listed)

theorem ofHistory_sound (apart : Digest.TellsApart texts) {history : List SessionEvent}
    (known : history.flatMap SessionEvent.texts ⊆ texts)
    (isSession : ofHistory symbols options history = session) :
    session.Sound symbols options texts := by
  subst isSession
  refine (unused_sound false).history apart fun event listed text among => ?_
  exact known (List.mem_flatMap.2 ⟨event, listed, among⟩)

theorem Sound.migrate (sound : session.Sound symbols options texts)
    (apart : Digest.TellsApart texts) {inputs : List BatchEntry} {source : ScriptSource}
    (known : textsOf inputs source ⊆ texts) (stop : Interrupt) :
    (session.migrate stop inputs source).1.told Migration.unnumbered =
      ({ symbols, options } : Migrator).migrateAnew (session.interrupt stop) inputs source := by
  obtain ⟨rfl, rfl, faithful⟩ := sound
  exact (session.migrator.migrate_anew _ apart faithful known session.holds).1

theorem told_migrateOne (session : MigrationSession) (stop : Interrupt) (input : BatchEntry)
    (source : ScriptSource) :
    (session.migrateOne stop input source).1.told ScriptResult.unnumbered =
      (((session.migrate stop [input] source).1.told Migration.unnumbered).1.bind
          (·.take input.key),
        ((session.migrate stop [input] source).1.told Migration.unnumbered).2) := by
  refine Prod.ext ?_ rfl
  have unfolds : (session.migrateOne stop input source).1.result =
    (session.migrate stop [input] source).1.result.bind (·.take input.key) := rfl
  unfold MigrationReport.told
  dsimp only
  rw [unfolds]
  cases (session.migrate stop [input] source).1.result with
  | error failure => rfl
  | ok migration => exact (migration.take_unnumbered input.key).symm

theorem Sound.pristine (sound : session.Sound symbols options texts)
    (apart : Digest.TellsApart texts) {inputs : List BatchEntry} {source : ScriptSource}
    (known : textsOf inputs source ⊆ texts) {stop : Interrupt} {migration : Migration}
    (isOk : (session.migrate stop inputs source).1.result = .ok migration) {result : ScriptResult}
    (listed : result ∈ migration.scripts) : Migrator.Pristine inputs source result := by
  have same := congrArg Prod.fst (sound.migrate apart known stop)
  rw [MigrationReport.told, isOk] at same
  have inside : result.unnumbered ∈ migration.unnumbered.scripts := List.mem_map_of_mem listed
  have pristine : Migrator.Pristine inputs source result.unnumbered :=
    Migrator.migrateAnew_pristine _ _ same.symm inside
  exact pristine

/-- Whatever a session did and whatever is kept, a migration of a batch or of one script gives the same
and tells the same as in an unused session that is cancelled or not like this one, and the modules that
its results hold are the parses of their texts. -/
theorem migrate_ofHistory {history : List SessionEvent} {inputs : List BatchEntry}
    {source : ScriptSource}
    (apart : Digest.TellsApart (history.flatMap SessionEvent.texts ++ textsOf inputs source))
    (isSession : ofHistory symbols options history = session) (stop : Interrupt) :
    ((session.migrate stop inputs source).1.told Migration.unnumbered =
        ((unused symbols options session.cancelled).migrate stop inputs source).1.told
          Migration.unnumbered ∧
      ∀ migration, (session.migrate stop inputs source).1.result = .ok migration →
        ∀ result ∈ migration.scripts, Migrator.Pristine inputs source result) ∧
    ∀ input, inputs = [input] →
      (session.migrateOne stop input source).1.told ScriptResult.unnumbered =
        ((unused symbols options session.cancelled).migrateOne stop input source).1.told
          ScriptResult.unnumbered ∧
      ∀ result, (session.migrateOne stop input source).1.result = .ok result →
        Migrator.Pristine inputs source result := by
  have known : textsOf inputs source ⊆
      history.flatMap SessionEvent.texts ++ textsOf inputs source :=
    List.subset_append_right ..
  have sound := ofHistory_sound apart (List.subset_append_left ..) isSession
  have batch : (session.migrate stop inputs source).1.told Migration.unnumbered =
      ((unused symbols options session.cancelled).migrate stop inputs source).1.told
        Migration.unnumbered := by
    rw [sound.migrate apart known stop, (unused_sound session.cancelled).migrate apart known stop]
    rfl
  refine ⟨⟨batch, fun migration isOk result listed => sound.pristine apart known isOk listed⟩, ?_⟩
  rintro input rfl
  refine ⟨by rw [told_migrateOne, told_migrateOne, batch], fun result isOk => ?_⟩
  have taken : (session.migrate stop [input] source).1.result.bind (·.take input.key) = .ok result :=
    isOk
  cases isMigration : (session.migrate stop [input] source).1.result with
  | error failure =>
    rw [isMigration] at taken
    exact nomatch taken
  | ok migration =>
    rw [isMigration] at taken
    exact sound.pristine apart known isMigration (Migration.mem_of_take taken)

theorem exists_migration (session : MigrationSession) (awake : session.cancelled = false) {stop : Interrupt}
    (never : ∀ progress, stop progress = false) (inputs : List BatchEntry) (source : ScriptSource) :
    ∃ migration, (session.migrate stop inputs source).1.result = .ok migration := by
  have goesOn : ∀ progress, session.interrupt stop progress = false := fun progress => by
    rw [interrupt, awake, never progress]
    rfl
  have unfolds := session.migrator.migrate_eq _ session.holds inputs source (goesOn {})
  exact ⟨_, (congrArg MigrationReport.result unfolds).trans
    (session.migrator.migrateLinked_of_never _ goesOn _ _)⟩

def sharedBatch : List BatchEntry :=
  [{ key := ⟨"Other", "A"⟩, text := "x = 1" },
    { key := ⟨"Lib", "B"⟩, text := "' including script - Lib:A" }]

def sharedSource : ScriptSource := ⟨[(⟨"Lib", "A"⟩, { text := "x = 1" })]⟩

def sharedHistory : List SessionEvent :=
  [.migrateOne (fun _ => false) { key := ⟨"Lib", "A"⟩, text := "x = 1" } {},
    .keep "first" {}, .migrate (fun _ => true) sharedBatch sharedSource, .drop "first", .reset]

theorem textsOf_sharedBatch : textsOf sharedBatch sharedSource =
    ["x = 1", "' including script - Lib:A", "x = 1"] := by
  rw [textsOf, ScriptStore.texts_linkInputs]
  decide +kernel

theorem sharedHistory_apart : Digest.TellsApart
    (sharedHistory.flatMap SessionEvent.texts ++ textsOf sharedBatch sharedSource) := by
  have alone : textsOf [{ key := ⟨"Lib", "A"⟩, text := "x = 1" }] {} = ["x = 1"] := by
    rw [textsOf, ScriptStore.texts_linkInputs]
    decide +kernel
  simp only [sharedHistory, List.flatMap_cons, List.flatMap_nil, SessionEvent.texts, alone,
    textsOf_sharedBatch, List.append_nil, List.cons_append, List.nil_append]
  unfold Digest.TellsApart
  decide +kernel

theorem migrate_ofHistory_shared : ∃ session,
    Digest.TellsApart
      (sharedHistory.flatMap SessionEvent.texts ++ textsOf sharedBatch sharedSource) ∧
    ofHistory .standard {} sharedHistory = session ∧
    ((session.migrate (fun _ => false) sharedBatch sharedSource).1.told Migration.unnumbered =
        ((unused .standard {} session.cancelled).migrate (fun _ => false) sharedBatch
          sharedSource).1.told Migration.unnumbered ∧
      ∀ migration,
        (session.migrate (fun _ => false) sharedBatch sharedSource).1.result = .ok migration →
        ∀ result ∈ migration.scripts, Migrator.Pristine sharedBatch sharedSource result) :=
  ⟨_, sharedHistory_apart, rfl, (migrate_ofHistory sharedHistory_apart rfl fun _ => false).1⟩

/-- A session whose last migration was stopped starts no other, as an unused one does. -/
theorem ofHistory_cancelled :
    Digest.TellsApart ([SessionEvent.migrate (fun _ => true) sharedBatch sharedSource].flatMap
      SessionEvent.texts ++ textsOf sharedBatch sharedSource) ∧
    ((ofHistory .standard {} [.migrate (fun _ => true) sharedBatch sharedSource]).migrate
      (fun _ => false) sharedBatch sharedSource).1.result = .error (.cancelled .link) ∧
    ∃ migration, ((unused .standard {} false).migrate (fun _ => false) sharedBatch
      sharedSource).1.result = .ok migration := by
  have apart : Digest.TellsApart ([SessionEvent.migrate (fun _ => true) sharedBatch
      sharedSource].flatMap SessionEvent.texts ++ textsOf sharedBatch sharedSource) := by
    simp only [List.flatMap_cons, List.flatMap_nil, SessionEvent.texts, textsOf_sharedBatch,
      List.append_nil, List.cons_append, List.nil_append]
    unfold Digest.TellsApart
    decide +kernel
  exact ⟨apart, rfl, (unused .standard {} false).exists_migration rfl (fun _ => rfl) sharedBatch
    sharedSource⟩

end MigrationSession

end ScriptMigration
