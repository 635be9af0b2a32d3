import Mathlib.Data.List.Flatten
import Mathlib.Data.List.Nodup
import Mathlib.Logic.Relation
import ScriptMigration.Include.Graph

/-! Searching the graph of includes. A walk enters exactly the scripts that can be reached; and of two
scripts, the one that is left first leads to the other only if it is entwined with a script that is
left later. Hence the order of work: scripts that include each other stand together, and all others
stand after what they include. -/
namespace ScriptMigration

def Before {α : Type} (list : List α) (first second : α) : Prop := [first, second].Sublist list

namespace Before

variable {α : Type} {list left right : List α} {first second : α}

theorem mem_left (before : Before list first second) : first ∈ list :=
  before.subset (List.mem_cons_self ..)

theorem append_iff : Before (left ++ right) first second ↔ Before left first second ∨
    (first ∈ left ∧ second ∈ right) ∨ Before right first second := by
  constructor
  · intro before
    obtain ⟨front, back, split, inLeft, inRight⟩ := List.sublist_append_iff.1 before
    match front, back, split with
    | [], _, rfl => exact .inr (.inr inRight)
    | [_], _, rfl => exact .inr (.inl ⟨inLeft.subset (List.mem_singleton_self _),
        inRight.subset (List.mem_singleton_self _)⟩)
    | [_, _], [], rfl => exact .inl inLeft
  · rintro (inLeft | ⟨inLeft, inRight⟩ | inRight)
    · exact inLeft.trans (List.sublist_append_left ..)
    · exact (List.singleton_sublist.2 inLeft).append (List.singleton_sublist.2 inRight)
    · exact inRight.trans (List.sublist_append_right ..)

theorem cons_iff {head : α} : Before (head :: list) first second ↔
    (first = head ∧ second ∈ list) ∨ Before list first second := by
  have split : Before ([head] ++ list) first second ↔ _ := append_iff
  have short : ¬ Before [head] first second := fun before => by
    have length := before.length_le
    simp at length
  simpa [short] using split

theorem total (isFirst : first ∈ list) (isSecond : second ∈ list) (differ : first ≠ second) :
    Before list first second ∨ Before list second first := by
  induction list with
  | nil => exact absurd isFirst List.not_mem_nil
  | cons head tail ih =>
    rw [cons_iff, cons_iff]
    rcases List.mem_cons.1 isFirst with rfl | firstLater
    · exact .inl (.inl ⟨rfl, (List.mem_cons.1 isSecond).resolve_left (Ne.symm differ)⟩)
    rcases List.mem_cons.1 isSecond with rfl | secondLater
    · exact .inr (.inl ⟨rfl, firstLater⟩)
    · exact (ih firstLater secondLater).imp .inr .inr

theorem flatMap {β : Type} (before : Before list first second) {f : α → List β} {one other : β}
    (inFirst : one ∈ f first) (inSecond : other ∈ f second) :
    Before (list.flatMap f) one other := by
  have parts := List.Sublist.flatMap before f
  rw [List.flatMap_cons, List.flatMap_singleton] at parts
  exact (append_iff.2 (.inr (.inl ⟨inFirst, inSecond⟩))).trans parts

theorem filter (before : Before list first second) {p : α → Bool} (keepsFirst : p first)
    (keepsSecond : p second) : Before (list.filter p) first second := by
  have kept := List.Sublist.filter p before
  rwa [List.filter_cons_of_pos keepsFirst, List.filter_cons_of_pos keepsSecond] at kept

end Before

namespace IncludeGraph

open Relation (ReflTransGen)

variable {graph : IncludeGraph} {next : ScriptId → List ScriptId}

def Includes (graph : IncludeGraph) (script target : ScriptId) : Prop :=
  target ∈ graph.targets script ∧ target ∈ graph.scripts

/-- A script includes another, directly or through others, or is the other. -/
abbrev Reaches (graph : IncludeGraph) : ScriptId → ScriptId → Prop := ReflTransGen graph.Includes

theorem Reaches.mem {script other : ScriptId} (reaches : graph.Reaches script other)
    (inside : script ∈ graph.scripts) : other ∈ graph.scripts := by
  rcases reaches.cases_tail with rfl | ⟨_, _, step⟩
  · exact inside
  · exact step.2

def Mutual (graph : IncludeGraph) (left right : ScriptId) : Prop :=
  graph.Reaches left right ∧ graph.Reaches right left

namespace Mutual

variable {first second third : ScriptId}

theorem refl (script : ScriptId) : graph.Mutual script script := ⟨.refl, .refl⟩

theorem symm (both : graph.Mutual first second) : graph.Mutual second first := ⟨both.2, both.1⟩

theorem trans (left : graph.Mutual first second) (right : graph.Mutual second third) :
    graph.Mutual first third :=
  ⟨left.1.trans right.1, right.2.trans left.2⟩

end Mutual

/-- A walk over some scripts that leaves out those seen: its steps, and what is seen after it. -/
inductive Explores (graph : IncludeGraph) (next : ScriptId → List ScriptId) :
    List ScriptId → List ScriptId → List WalkStep → List ScriptId → Prop where
  | done {seen : List ScriptId} : Explores graph next [] seen [] seen
  | skip {script : ScriptId} {todo seen after : List ScriptId} {steps : List WalkStep}
      (known : ¬ (script ∈ graph.scripts ∧ script ∉ seen))
      (rest : Explores graph next todo seen steps after) :
      Explores graph next (script :: todo) seen steps after
  | enter {script : ScriptId} {todo seen between after : List ScriptId}
      {inner outer : List WalkStep} (inside : script ∈ graph.scripts) (unseen : script ∉ seen)
      (below : Explores graph next (next script) (script :: seen) inner between)
      (rest : Explores graph next todo between outer after) :
      Explores graph next (script :: todo) seen
        (.enter script :: (inner ++ .leave script :: outer)) after

def entered (steps : List WalkStep) : List ScriptId := steps.filterMap WalkStep.entered?

def left (steps : List WalkStep) : List ScriptId := steps.filterMap WalkStep.left?

@[simp] theorem entered_visit (script : ScriptId) (inner outer : List WalkStep) :
    entered (.enter script :: (inner ++ .leave script :: outer)) =
      script :: (entered inner ++ entered outer) := by
  simp [entered, WalkStep.entered?, List.filterMap_cons]

@[simp] theorem left_visit (script : ScriptId) (inner outer : List WalkStep) :
    left (.enter script :: (inner ++ .leave script :: outer)) =
      left inner ++ script :: left outer := by
  simp [left, WalkStep.left?, List.filterMap_cons]

def Shut (graph : IncludeGraph) (opened seen : List ScriptId) : Prop :=
  ∀ script ∈ seen, script ∉ opened → ∀ target, graph.Includes script target → target ∈ seen

namespace Explores

variable {todo seen after : List ScriptId} {steps : List WalkStep}

theorem mem_after (explores : Explores graph next todo seen steps after) {script : ScriptId} :
    script ∈ after ↔ script ∈ seen ∨ script ∈ entered steps := by
  induction explores with
  | done => simp [entered]
  | skip _ _ ih => exact ih
  | enter _ _ _ _ below rest =>
    rw [rest, below, entered_visit]
    simp only [List.mem_cons, List.mem_append]
    tauto

theorem entered_new (explores : Explores graph next todo seen steps after) :
    (entered steps).Nodup ∧ ∀ script ∈ entered steps, script ∈ graph.scripts ∧ script ∉ seen := by
  induction explores with
  | done => exact ⟨List.nodup_nil, fun _ absurd => nomatch absurd⟩
  | skip _ _ ih => exact ih
  | @enter script todo seen between after inner outer inside unseen below rest ihBelow ihRest =>
    rw [entered_visit]
    have later : ∀ other ∈ entered outer, other ∉ script :: seen ∧ other ∉ entered inner := by
      intro other listed
      have new := (ihRest.2 other listed).2
      rw [below.mem_after] at new
      exact not_or.1 new
    refine ⟨List.nodup_cons.2 ⟨fun again => ?_, List.nodup_append'.2 ⟨ihBelow.1, ihRest.1,
      fun other first second => (later other second).2 first⟩⟩, fun other listed => ?_⟩
    · rcases List.mem_append.1 again with first | second
      · exact (ihBelow.2 script first).2 (List.mem_cons_self ..)
      · exact (later script second).1 (List.mem_cons_self ..)
    · rcases List.mem_cons.1 listed with rfl | listed
      · exact ⟨inside, unseen⟩
      rcases List.mem_append.1 listed with first | second
      · obtain ⟨lies, new⟩ := ihBelow.2 other first
        exact ⟨lies, fun old => new (List.mem_cons_of_mem _ old)⟩
      · exact ⟨(ihRest.2 other second).1, fun old =>
          (later other second).1 (List.mem_cons_of_mem _ old)⟩

theorem left_perm (explores : Explores graph next todo seen steps after) :
    (left steps).Perm (entered steps) := by
  induction explores with
  | done => exact .refl _
  | skip _ _ ih => exact ih
  | enter _ _ _ _ below rest =>
    rw [entered_visit, left_visit]
    exact List.perm_middle.trans ((below.append rest).cons _)

theorem todo_seen (explores : Explores graph next todo seen steps after) :
    ∀ script ∈ todo, script ∈ graph.scripts → script ∈ after := by
  induction explores with
  | done => exact fun _ absurd => nomatch absurd
  | skip known rest ih =>
    intro script listed inside
    rcases List.mem_cons.1 listed with rfl | later
    · refine rest.mem_after.2 (.inl ?_)
      by_contra unseen
      exact known ⟨inside, unseen⟩
    · exact ih script later inside
  | enter _ _ below rest _ ih =>
    intro script listed inside
    rcases List.mem_cons.1 listed with rfl | later
    · exact rest.mem_after.2 (.inl (below.mem_after.2 (.inl (List.mem_cons_self ..))))
    · exact ih script later inside

theorem walk_eq (explores : Explores graph next todo seen steps after) (rest : List WalkStep) :
    graph.walk next (todo.map .enter ++ rest) seen = steps ++ graph.walk next rest after := by
  induction explores generalizing rest with
  | done => rfl
  | skip known _ ih => rw [List.map_cons, List.cons_append, walk, dif_neg known, ih]
  | enter inside unseen _ _ ihBelow ihRest =>
    rw [List.map_cons, List.cons_append, walk, dif_pos ⟨inside, unseen⟩, ihBelow, walk, ihRest]
    simp

section Same

variable (same : ∀ script target, target ∈ next script ↔ target ∈ graph.targets script)

include same

theorem includes_seen (explores : Explores graph next todo seen steps after) :
    ∀ script ∈ entered steps, ∀ target, graph.Includes script target → target ∈ after := by
  induction explores with
  | done => exact fun _ absurd => nomatch absurd
  | skip _ _ ih => exact ih
  | enter _ _ below rest ihBelow ihRest =>
    intro script listed target includes
    rw [entered_visit] at listed
    rcases List.mem_cons.1 listed with rfl | listed
    · exact rest.mem_after.2 (.inl
        (below.todo_seen target ((same _ _).2 includes.1) includes.2))
    rcases List.mem_append.1 listed with first | second
    · exact rest.mem_after.2 (.inl (ihBelow script first target includes))
    · exact ihRest script second target includes

theorem entered_reached (explores : Explores graph next todo seen steps after) :
    ∀ script ∈ entered steps, ∃ start ∈ todo, start ∈ graph.scripts ∧ graph.Reaches start script := by
  induction explores with
  | done => exact fun _ absurd => nomatch absurd
  | skip _ _ ih =>
    intro script listed
    obtain ⟨start, among, reaches⟩ := ih script listed
    exact ⟨start, List.mem_cons_of_mem _ among, reaches⟩
  | @enter script todo seen between after inner outer inside unseen below rest ihBelow ihRest =>
    intro other listed
    rw [entered_visit] at listed
    rcases List.mem_cons.1 listed with rfl | listed
    · exact ⟨other, List.mem_cons_self .., inside, .refl⟩
    rcases List.mem_append.1 listed with first | second
    · obtain ⟨start, among, lies, reaches⟩ := ihBelow other first
      exact ⟨script, List.mem_cons_self .., inside, .head ⟨(same _ _).1 among, lies⟩ reaches⟩
    · obtain ⟨start, among, reaches⟩ := ihRest other second
      exact ⟨start, List.mem_cons_of_mem _ among, reaches⟩

omit same in
theorem exists_opened {opened : List ScriptId} (shut : graph.Shut opened seen)
    {script target : ScriptId} (known : script ∈ seen) (new : target ∉ seen)
    (reaches : graph.Reaches script target) : ∃ middle ∈ opened, graph.Reaches script middle := by
  induction reaches using ReflTransGen.head_induction_on with
  | refl => exact absurd known new
  | @head script other step _ ih =>
    by_cases isOpened : script ∈ opened
    · exact ⟨script, isOpened, .refl⟩
    · obtain ⟨middle, among, onward⟩ := ih (shut script known isOpened other step)
      exact ⟨middle, among, .head step onward⟩

omit same in
theorem shut_enter {opened : List ScriptId} (shut : graph.Shut opened seen) (script : ScriptId) :
    graph.Shut (script :: opened) (script :: seen) := by
  intro other listed apart target includes
  obtain ⟨differs, unopened⟩ := not_or.1 fun either => apart (List.mem_cons.2 either)
  have old := (List.mem_cons.1 listed).resolve_left differs
  exact List.mem_cons_of_mem _ (shut other old unopened target includes)

theorem shut_leave {opened : List ScriptId} {script : ScriptId} {inner : List WalkStep}
    (below : Explores graph next (next script) (script :: seen) inner after)
    (shut : graph.Shut opened seen) : graph.Shut opened after := by
  intro other listed unopened target includes
  rcases below.mem_after.1 listed with old | new
  · rcases List.mem_cons.1 old with rfl | old
    · exact below.todo_seen target ((same _ _).2 includes.1) includes.2
    · exact below.mem_after.2 (.inl (List.mem_cons_of_mem _ (shut other old unopened target includes)))
  · exact below.includes_seen same other new target includes

/-- Scripts that are `opened` lead to all that is to do, and all others that are seen include only
what is seen. Of two scripts that are left by a walk, the first leads to the second only if it is
entwined with a script that is opened or left later. -/
theorem left_trails (explores : Explores graph next todo seen steps after) (opened : List ScriptId)
    (leads : ∀ script ∈ opened, ∀ target ∈ todo, target ∈ graph.scripts →
      graph.Reaches script target)
    (shut : graph.Shut opened seen)
    {first second : ScriptId} (before : Before (left steps) first second)
    (reaches : graph.Reaches first second) :
    ∃ other, graph.Mutual first other ∧ (other ∈ opened ∨ Before (left steps) first other) := by
  induction explores generalizing opened with
  | done => exact absurd before.mem_left List.not_mem_nil
  | skip _ _ ih =>
    exact ih opened (fun script among target listed => leads script among target
      (List.mem_cons_of_mem _ listed)) shut before
  | @enter script todo seen between after inner outer inside unseen below rest ihBelow ihRest =>
    have leadsBelow : ∀ other ∈ script :: opened, ∀ target ∈ next script, target ∈ graph.scripts →
        graph.Reaches other target := by
      intro other among target listed lies
      have step : graph.Includes script target := ⟨(same _ _).1 listed, lies⟩
      rcases List.mem_cons.1 among with rfl | among
      · exact .single step
      · exact (leads other among script (List.mem_cons_self ..) inside).tail step
    have shutRest := shut_leave same below shut
    have reached : ∀ other ∈ left inner, graph.Reaches script other := by
      intro other listed
      obtain ⟨start, among, lies, onward⟩ :=
        below.entered_reached same other (below.left_perm.subset listed)
      exact .head ⟨(same _ _).1 among, lies⟩ onward
    -- what is left after `script` was not seen before, so the way there leads through one opened
    have blocked {other : ScriptId} (seenNow : other ∈ between) (fromScript : graph.Reaches script other)
        (later : second ∈ left outer) (onward : graph.Reaches other second) :
        ∃ middle ∈ opened, graph.Mutual other middle := by
      have new : second ∉ between := (rest.entered_new.2 second (rest.left_perm.subset later)).2
      obtain ⟨middle, isOpened, toMiddle⟩ := exists_opened shutRest seenNow new onward
      exact ⟨middle, isOpened, toMiddle,
        (leads middle isOpened script (List.mem_cons_self ..) inside).trans fromScript⟩
    rw [left_visit] at before ⊢
    rcases Before.append_iff.1 before with within | ⟨isInner, isOuter⟩ | within
    · obtain ⟨other, both, isOpened | later⟩ :=
        ihBelow _ leadsBelow (shut_enter shut script) within
      · rcases List.mem_cons.1 isOpened with rfl | isOpened
        · exact ⟨other, both, .inr (Before.append_iff.2
            (.inr (.inl ⟨within.mem_left, List.mem_cons_self ..⟩)))⟩
        · exact ⟨other, both, .inl isOpened⟩
      · exact ⟨other, both, .inr (Before.append_iff.2 (.inl later))⟩
    · rcases List.mem_cons.1 isOuter with rfl | later
      · exact ⟨second, ⟨reaches, reached first isInner⟩, .inr before⟩
      · have seenNow := below.mem_after.2 (.inr (below.left_perm.subset isInner))
        obtain ⟨middle, isOpened, both⟩ := blocked seenNow (reached first isInner) later reaches
        exact ⟨middle, both, .inl isOpened⟩
    · rcases Before.cons_iff.1 within with ⟨rfl, later⟩ | within
      · have seenNow := below.mem_after.2 (.inl (List.mem_cons_self ..))
        obtain ⟨middle, isOpened, both⟩ := blocked seenNow .refl later reaches
        exact ⟨middle, both, .inl isOpened⟩
      · obtain ⟨other, both, isOpened | later⟩ := ihRest opened (fun other among target listed =>
          leads other among target (List.mem_cons_of_mem _ listed)) shutRest within
        · exact ⟨other, both, .inl isOpened⟩
        · exact ⟨other, both, .inr (Before.append_iff.2 (.inr (.inr (Before.cons_iff.2 (.inr later)))))⟩

end Same

end Explores

theorem unseen_shrinks {scripts seen after : List ScriptId} {script : ScriptId}
    (keeps : ∀ other ∈ seen, other ∈ after) (inside : script ∈ scripts) (unseen : script ∉ seen)
    (now : script ∈ after) :
    (scripts.filter (· ∉ after)).length < (scripts.filter (· ∉ seen)).length := by
  have split : scripts.filter (· ∉ after) = (scripts.filter (· ∉ seen)).filter (· ∉ after) := by
    rw [List.filter_filter]
    refine List.filter_congr fun other _ => ?_
    by_cases old : other ∈ seen
    · simp [keeps other old]
    · simp [old]
  rw [split]
  exact List.length_filter_lt_length_iff_exists.2 ⟨script, by simp [inside, unseen], by simp [now]⟩

theorem exists_explores (graph : IncludeGraph) (next : ScriptId → List ScriptId)
    (todo seen : List ScriptId) : ∃ steps after, Explores graph next todo seen steps after := by
  induction size : (graph.scripts.filter (· ∉ seen)).length using Nat.strongRecOn
    generalizing todo seen with
  | ind size smaller =>
    induction todo generalizing seen with
    | nil => exact ⟨[], seen, .done⟩
    | cons script todo ih =>
      by_cases new : script ∈ graph.scripts ∧ script ∉ seen
      · subst size
        have keeps : ∀ other ∈ seen, other ∈ script :: seen := fun _ => List.mem_cons_of_mem _
        obtain ⟨inner, between, below⟩ := smaller _
          (unseen_shrinks keeps new.1 new.2 (List.mem_cons_self ..)) (next script) _ rfl
        have now := below.mem_after.2 (.inl (List.mem_cons_self ..))
        obtain ⟨outer, after, above⟩ := smaller _ (unseen_shrinks (fun other old =>
          below.mem_after.2 (.inl (keeps other old))) new.1 new.2 now) todo between rfl
        exact ⟨_, after, .enter new.1 new.2 below above⟩
      · obtain ⟨steps, after, explores⟩ := ih seen size
        exact ⟨steps, after, .skip new explores⟩

theorem reach_eq {script : ScriptId} {steps : List WalkStep} {after : List ScriptId}
    (explores : Explores graph graph.targets [script] [] steps after) :
    graph.reach script = entered steps := by
  have whole := explores.walk_eq []
  rw [walk, List.append_nil, List.append_nil] at whole
  exact congrArg entered whole

theorem mem_reach {script : ScriptId} (inside : script ∈ graph.scripts) (other : ScriptId) :
    other ∈ graph.reach script ↔ graph.Reaches script other := by
  obtain ⟨steps, after, explores⟩ := exists_explores graph graph.targets [script] []
  rw [reach_eq explores]
  constructor
  · intro listed
    obtain ⟨start, among, -, reaches⟩ := explores.entered_reached (fun _ _ => .rfl) other listed
    obtain rfl := List.mem_singleton.1 among
    exact reaches
  · intro reaches
    have start : script ∈ entered steps := (explores.mem_after.1
      (explores.todo_seen script (List.mem_singleton_self _) inside)).resolve_left List.not_mem_nil
    induction reaches with
    | refl => exact start
    | tail _ step ih => exact (explores.mem_after.1
        (explores.includes_seen (fun _ _ => .rfl) _ ih _ step)).resolve_left List.not_mem_nil

theorem entwined_iff {left right : ScriptId} (first : left ∈ graph.scripts)
    (second : right ∈ graph.scripts) : graph.entwined left right ↔ graph.Mutual left right := by
  rw [entwined, Bool.and_eq_true, List.contains_iff_mem, List.contains_iff_mem, mem_reach first,
    mem_reach second]
  rfl

theorem finished_explored (graph : IncludeGraph) : ∃ steps after,
    Explores graph (fun script => (graph.targets script).reverse) graph.scripts [] steps after ∧
      graph.finished = left steps := by
  obtain ⟨steps, after, explores⟩ := exists_explores graph
    (fun script => (graph.targets script).reverse) graph.scripts []
  refine ⟨steps, after, explores, ?_⟩
  have whole := explores.walk_eq []
  rw [walk, List.append_nil, List.append_nil] at whole
  exact congrArg left whole

theorem finished_perm (once : graph.scripts.Nodup) : graph.finished.Perm graph.scripts := by
  obtain ⟨steps, after, explores, same⟩ := graph.finished_explored
  rw [same]
  refine explores.left_perm.trans ((List.perm_ext_iff_of_nodup explores.entered_new.1 once).2
    fun script => ⟨fun listed => (explores.entered_new.2 script listed).1, fun inside => ?_⟩)
  exact (explores.mem_after.1 (explores.todo_seen script inside inside)).resolve_left
    List.not_mem_nil

theorem finished_trails {first second : ScriptId} (before : Before graph.finished first second)
    (reaches : graph.Reaches first second) :
    ∃ other, graph.Mutual first other ∧ Before graph.finished first other := by
  obtain ⟨steps, after, explores, same⟩ := graph.finished_explored
  rw [same] at before ⊢
  obtain ⟨other, both, absurd | later⟩ := explores.left_trails (fun _ _ => List.mem_reverse)
    [] (fun _ absurd => nomatch absurd) (fun _ absurd => nomatch absurd) before reaches
  · exact nomatch absurd
  · exact ⟨other, both, later⟩

def leaders (graph : IncludeGraph) : List ScriptId → List ScriptId
  | [] => []
  | script :: later =>
    if later.any (graph.entwined script) then graph.leaders later
    else script :: graph.leaders later

theorem order_go_eq (list : List ScriptId) :
    order.go graph list = (graph.leaders list).flatMap graph.component := by
  induction list with
  | nil => rfl
  | cons script later ih =>
    unfold order.go leaders
    split
    · exact ih
    · rw [List.flatMap_cons, ih]

theorem leaders_sublist (list : List ScriptId) : (graph.leaders list).Sublist list := by
  induction list with
  | nil => exact .slnil
  | cons script later ih =>
    unfold leaders
    split
    · exact .cons _ ih
    · exact .cons_cons _ ih

section Leaders

variable {list : List ScriptId} (known : ∀ script ∈ list, script ∈ graph.scripts)

include known

theorem leaders_last {leader other : ScriptId} (leads : leader ∈ graph.leaders list)
    (once : list.Nodup) (later : Before list leader other) : ¬ graph.Mutual leader other := by
  induction list with
  | nil => exact absurd leads List.not_mem_nil
  | cons script rest ih =>
    have knownRest : ∀ other ∈ rest, other ∈ graph.scripts := fun other listed =>
      known other (List.mem_cons_of_mem _ listed)
    obtain ⟨apart, onceRest⟩ := List.nodup_cons.1 once
    rcases Before.cons_iff.1 later with ⟨rfl, isLater⟩ | within
    · unfold leaders at leads
      split at leads
      · exact absurd ((leaders_sublist rest).subset leads) apart
      · rename_i alone
        intro both
        exact alone (List.any_eq_true.2 ⟨other, isLater, (entwined_iff
          (known leader (List.mem_cons_self ..)) (knownRest other isLater)).2 both⟩)
    · have leadsRest : leader ∈ graph.leaders rest := by
        unfold leaders at leads
        split at leads
        · exact leads
        · exact (List.mem_cons.1 leads).resolve_left fun same => apart (same ▸ within.mem_left)
      exact ih knownRest leadsRest onceRest within

theorem exists_leader {script : ScriptId} (listed : script ∈ list) :
    ∃ leader ∈ graph.leaders list, graph.Mutual script leader := by
  induction list generalizing script with
  | nil => exact absurd listed List.not_mem_nil
  | cons first rest ih =>
    have knownRest : ∀ other ∈ rest, other ∈ graph.scripts := fun other among =>
      known other (List.mem_cons_of_mem _ among)
    rcases List.mem_cons.1 listed with rfl | later
    · unfold leaders
      split
      · rename_i entwined
        obtain ⟨other, among, both⟩ := List.any_eq_true.1 entwined
        have both := (entwined_iff (known script (List.mem_cons_self ..))
          (knownRest other among)).1 both
        obtain ⟨leader, leads, further⟩ := ih knownRest among
        exact ⟨leader, leads, both.trans further⟩
      · exact ⟨script, List.mem_cons_self .., .refl script⟩
    · obtain ⟨leader, leads, both⟩ := ih knownRest later
      refine ⟨leader, ?_, both⟩
      unfold leaders
      split
      · exact leads
      · exact List.mem_cons_of_mem _ leads

end Leaders

theorem mem_component {script other : ScriptId} (inside : script ∈ graph.scripts) :
    other ∈ graph.component script ↔ other ∈ graph.scripts ∧ graph.Mutual script other := by
  rw [component, List.mem_filter]
  exact and_congr_right fun lies => entwined_iff inside lies

theorem component_congr {script other : ScriptId} (inside : script ∈ graph.scripts)
    (lies : other ∈ graph.scripts) (both : graph.Mutual script other) :
    graph.component script = graph.component other := by
  refine List.filter_congr fun third among => Bool.eq_iff_iff.2 ?_
  rw [entwined_iff inside among, entwined_iff lies among]
  exact ⟨fun first => both.symm.trans first, fun second => both.trans second⟩

theorem leaders_apart (once : graph.scripts.Nodup) :
    (graph.leaders graph.finished).Pairwise fun first second => ¬ graph.Reaches first second := by
  have perm := finished_perm once
  refine List.pairwise_iff_forall_sublist.2 fun {first second} before reaches => ?_
  have within : Before graph.finished first second := before.trans (leaders_sublist _)
  obtain ⟨other, both, later⟩ := finished_trails within reaches
  exact leaders_last (fun script listed => perm.subset listed)
    (before.subset (List.mem_cons_self ..)) (perm.nodup_iff.2 once) later both

section Order

variable (once : graph.scripts.Nodup)

include once

theorem leader_mem {leader : ScriptId} (leads : leader ∈ graph.leaders graph.finished) :
    leader ∈ graph.scripts := (finished_perm once).subset ((leaders_sublist _).subset leads)

theorem exists_leader_of_mem {script : ScriptId} (inside : script ∈ graph.scripts) :
    ∃ leader ∈ graph.leaders graph.finished, script ∈ graph.component leader := by
  have perm := finished_perm once
  obtain ⟨leader, leads, both⟩ := exists_leader (fun script listed => perm.subset listed)
    (perm.symm.subset inside)
  exact ⟨leader, leads, (mem_component (leader_mem once leads)).2 ⟨inside, both.symm⟩⟩

theorem order_perm : graph.order.Perm graph.scripts := by
  rw [order, order_go_eq]
  have nodup : ((graph.leaders graph.finished).flatMap graph.component).Nodup := by
    refine List.nodup_flatMap.2 ⟨fun leader _ => once.filter _, ?_⟩
    refine (leaders_apart once).imp_of_mem fun first second apart script left right => ?_
    have one := ((mem_component (leader_mem once first)).1 left).2
    have other := ((mem_component (leader_mem once second)).1 right).2
    exact apart (one.1.trans other.2)
  refine (List.perm_ext_iff_of_nodup nodup once).2 fun script => ⟨fun listed => ?_, fun inside => ?_⟩
  · obtain ⟨leader, leads, among⟩ := List.mem_flatMap.1 listed
    exact ((mem_component (leader_mem once leads)).1 among).1
  · exact List.mem_flatMap.2 (exists_leader_of_mem once inside)

theorem order_block {script : ScriptId} (inside : script ∈ graph.scripts) :
    ∃ before after, graph.order = before ++ graph.component script ++ after := by
  obtain ⟨leader, leads, among⟩ := exists_leader_of_mem once inside
  have lies := leader_mem once leads
  obtain ⟨front, back, split⟩ := List.append_of_mem leads
  rw [order, order_go_eq, split, List.flatMap_append, List.flatMap_cons,
    component_congr lies inside ((mem_component lies).1 among).2]
  exact ⟨_, _, (List.append_assoc ..).symm⟩

theorem order_before {script target : ScriptId} (inside : script ∈ graph.scripts)
    (includes : graph.Includes script target) (oneWay : ¬ graph.Reaches target script) :
    Before graph.order target script := by
  obtain ⟨first, firstLeads, isFirst⟩ := exists_leader_of_mem once includes.2
  obtain ⟨second, secondLeads, isSecond⟩ := exists_leader_of_mem once inside
  have toTarget := ((mem_component (leader_mem once firstLeads)).1 isFirst).2
  have toScript := ((mem_component (leader_mem once secondLeads)).1 isSecond).2
  have differ : first ≠ second := by
    rintro rfl
    exact oneWay (toTarget.2.trans toScript.1)
  rw [order, order_go_eq]
  rcases Before.total firstLeads secondLeads differ with before | before
  · exact before.flatMap isFirst isSecond
  · have apart := List.pairwise_iff_forall_sublist.1 (leaders_apart once) before
    exact absurd ((toScript.1.tail includes).trans toTarget.2) apart

theorem order_pairwise : graph.order.Pairwise fun first second =>
    graph.Reaches first second → graph.Reaches second first := by
  rw [order, order_go_eq, List.pairwise_flatMap]
  refine ⟨fun leader leads => ?_, (leaders_apart once).imp_of_mem ?_⟩
  · have lies := leader_mem once leads
    refine List.pairwise_of_forall_mem_list fun first isFirst second isSecond _ => ?_
    have one := ((mem_component lies).1 isFirst).2
    have other := ((mem_component lies).1 isSecond).2
    exact other.2.trans one.1
  · intro left right leftLeads rightLeads apart first isFirst second isSecond reaches
    have one := ((mem_component (leader_mem once leftLeads)).1 isFirst).2
    have other := ((mem_component (leader_mem once rightLeads)).1 isSecond).2
    exact absurd ((one.1.trans reaches).trans other.2) apart

end Order

end IncludeGraph

end ScriptMigration
