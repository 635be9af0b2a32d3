import ScriptMigration.Syntax.Shape

/-! The parts of a node: each is smaller than the node, and `Shape.mapParts` replaces them. The map
is told that a part belongs to the node, so that recursion over trees can go through it. -/
namespace ScriptMigration

namespace Shape

variable {α β : Type}

section Size

variable [SizeOf α]

private theorem sizeOf_mem_toList {a : α} {part : Option α} (inside : a ∈ part.toList) :
    sizeOf a < sizeOf part := by
  cases part with
  | none => simp at inside
  | some value =>
    simp only [Option.toList_some, List.mem_singleton] at inside
    subst inside
    simp only [Option.some.sizeOf_spec]
    omega

private theorem sizeOf_mem_varParts {a : α} {decl : VarDecl α} (inside : a ∈ varParts decl) :
    sizeOf a < sizeOf decl := by
  rcases decl with ⟨name, visibility, typeName, array, init, marks, origin⟩
  simp only [VarDecl.mk.sizeOf_spec]
  simp only [varParts, List.mem_append] at inside
  rcases inside with inside | inside
  · cases array with
    | none => simp at inside
    | some array =>
      rcases array with ⟨rank, bounds⟩
      have smaller : sizeOf a < sizeOf bounds := List.sizeOf_lt_of_mem inside
      simp only [Option.some.sizeOf_spec, ArrayBounds.mk.sizeOf_spec]
      omega
  · have smaller := sizeOf_mem_toList inside
    omega

private theorem sizeOf_mem_parts {a : α} {test : CasePattern α} (inside : a ∈ test.parts) :
    sizeOf a < sizeOf test := by
  cases test with
  | value part =>
    obtain rfl := List.mem_singleton.1 inside
    simp only [CasePattern.value.sizeOf_spec]
    omega
  | range low high =>
    simp only [CasePattern.parts, List.mem_cons, List.not_mem_nil, or_false] at inside
    simp only [CasePattern.range.sizeOf_spec]
    rcases inside with rfl | rfl <;> omega
  | is op part =>
    obtain rfl := List.mem_singleton.1 inside
    simp only [CasePattern.is.sizeOf_spec]
    omega

private theorem sizeOf_mem_method {a : α} {decl : MethodDecl α}
    (inside : a ∈ decl.params ++ [decl.body]) : sizeOf a < sizeOf decl := by
  rcases decl with ⟨name, visibility, kind, params, returnType, body, marks⟩
  simp only [MethodDecl.mk.sizeOf_spec]
  rcases List.mem_append.1 inside with inside | inside
  · have smaller : sizeOf a < sizeOf params := List.sizeOf_lt_of_mem inside
    omega
  · obtain rfl : a = body := List.mem_singleton.1 inside
    omega

private theorem sizeOf_mem_accessors {a : α} {decl : PropertyDecl α} (inside : a ∈ decl.accessors) :
    sizeOf a < sizeOf decl := by
  rcases decl with ⟨name, visibility, marks, getter, letter, setter⟩
  simp only [PropertyDecl.accessors, List.mem_append] at inside
  simp only [PropertyDecl.mk.sizeOf_spec]
  rcases inside with (inside | inside) | inside
  all_goals
    have smaller := sizeOf_mem_toList inside
    omega

private theorem sizeOf_mem_arms {a : α} {arms : List (IfArm α)}
    (inside : a ∈ arms.flatMap fun arm => [arm.cond, arm.body]) : sizeOf a < sizeOf arms := by
  obtain ⟨⟨cond, body⟩, member, inside⟩ := List.mem_flatMap.1 inside
  have smaller := List.sizeOf_lt_of_mem member
  simp only [List.mem_cons, List.not_mem_nil, or_false] at inside
  simp only [IfArm.mk.sizeOf_spec] at smaller
  rcases inside with rfl | rfl <;> omega

private theorem sizeOf_mem_cases {a : α} {cases : List (CaseArm α)}
    (inside : a ∈ cases.flatMap fun arm => arm.tests.flatMap CasePattern.parts ++ [arm.body]) :
    sizeOf a < sizeOf cases := by
  obtain ⟨⟨tests, body⟩, member, inside⟩ := List.mem_flatMap.1 inside
  have smaller := List.sizeOf_lt_of_mem member
  simp only [CaseArm.mk.sizeOf_spec] at smaller
  rcases List.mem_append.1 inside with inside | inside
  · obtain ⟨test, tested, inside⟩ := List.mem_flatMap.1 inside
    have smallerTest : sizeOf test < sizeOf tests := List.sizeOf_lt_of_mem tested
    have smallerPart := sizeOf_mem_parts inside
    omega
  · obtain rfl : a = body := List.mem_singleton.1 inside
    omega

private theorem sizeOf_mem_loop {a body : α} {test : Option (LoopGuard α)}
    (inside : a ∈ (loop test body).children) : sizeOf a < 1 + sizeOf test + sizeOf body := by
  rcases test with _ | ⟨kind, cond, _ | _⟩
  · obtain rfl : a = body := List.mem_singleton.1 inside
    omega
  all_goals
    simp only [children, Bool.false_eq_true, if_false, if_true, List.mem_cons, List.not_mem_nil,
      or_false] at inside
    simp only [Option.some.sizeOf_spec, LoopGuard.mk.sizeOf_spec]
    rcases inside with rfl | rfl <;> omega

/-- A part is smaller than the node it is part of. -/
theorem sizeOf_lt_of_mem_children {a : α} {shape : Shape α} (inside : a ∈ shape.children) :
    sizeOf a < sizeOf shape := by
  cases shape with
  | type decl =>
    rcases decl with ⟨name, visibility, members, marks⟩
    have smaller : sizeOf a < sizeOf members := List.sizeOf_lt_of_mem inside
    simp only [type.sizeOf_spec, TypeDecl.mk.sizeOf_spec]
    omega
  | param decl =>
    rcases decl with ⟨name, passing, marks, typeName, default⟩
    have smaller : sizeOf a < sizeOf default := sizeOf_mem_toList inside
    simp only [param.sizeOf_spec, ParamDecl.mk.sizeOf_spec]
    omega
  | field decl | localVar decl =>
    have smaller := sizeOf_mem_varParts inside
    simp only [field.sizeOf_spec, localVar.sizeOf_spec]
    omega
  | method decl =>
    have smaller := sizeOf_mem_method inside
    simp only [method.sizeOf_spec]
    omega
  | property decl =>
    have smaller := sizeOf_mem_accessors inside
    simp only [property.sizeOf_spec]
    omega
  | loop test body =>
    have smaller := sizeOf_mem_loop inside
    simp only [loop.sizeOf_spec]
    omega
  | ifStmt single arms otherwise =>
    simp only [ifStmt.sizeOf_spec]
    rcases List.mem_append.1 inside with inside | inside
    · have smaller := sizeOf_mem_arms inside
      omega
    · have smaller := sizeOf_mem_toList inside
      omega
  | select subject cases otherwise =>
    simp only [children, List.mem_append, List.mem_cons] at inside
    simp only [select.sizeOf_spec]
    rcases inside with (rfl | inside) | inside
    · omega
    · have smaller := sizeOf_mem_cases inside
      omega
    · have smaller := sizeOf_mem_toList inside
      omega
  | forRange counter first last step body =>
    simp only [children, List.mem_append, List.mem_cons, List.not_mem_nil, or_false] at inside
    simp only [forRange.sizeOf_spec]
    rcases inside with ((rfl | rfl | rfl) | inside) | rfl
    case inl.inr =>
      have smaller := sizeOf_mem_toList inside
      omega
    all_goals omega
  | redim _ first rest | call _ first rest =>
    simp only [redim.sizeOf_spec, call.sizeOf_spec]
    rcases List.mem_cons.1 inside with rfl | inside
    · omega
    · have smaller : sizeOf a < sizeOf rest := List.sizeOf_lt_of_mem inside
      omega
  | block parts | new _ parts =>
    have smaller : sizeOf a < sizeOf parts := List.sizeOf_lt_of_mem inside
    simp only [block.sizeOf_spec, new.sizeOf_spec]
    omega
  | returnStmt part | member part _ =>
    have smaller : sizeOf a < sizeOf part := sizeOf_mem_toList inside
    simp only [returnStmt.sizeOf_spec, member.sizeOf_spec]
    omega
  | exprStmt expr | erase expr | paren expr | unary _ expr =>
    obtain rfl : a = expr := List.mem_singleton.1 inside
    simp only [exprStmt.sizeOf_spec, erase.sizeOf_spec, paren.sizeOf_spec, unary.sizeOf_spec]
    omega
  | assign _ left right | withStmt left right | binary _ left right =>
    simp only [children, List.mem_cons, List.not_mem_nil, or_false] at inside
    simp only [assign.sizeOf_spec, withStmt.sizeOf_spec, binary.sizeOf_spec]
    rcases inside with rfl | rfl <;> omega
  | forEach item collection body =>
    simp only [children, List.mem_cons, List.not_mem_nil, or_false] at inside
    simp only [forEach.sizeOf_spec]
    rcases inside with rfl | rfl | rfl <;> omega
  | onError | exit | literal | name | missing | assignedValue | resource =>
    simp [children] at inside

end Size

def mapVar (decl : VarDecl α) (f : (a : α) → a ∈ varParts decl → β) : VarDecl β where
  name := decl.name
  visibility := decl.visibility
  typeName := decl.typeName
  array :=
    match found : decl.array with
    | none => none
    | some array =>
      some ⟨array.rank, array.bounds.attach.map fun ⟨bound, inside⟩ =>
        f bound (by simp [varParts, found, inside])⟩
  init :=
    match found : decl.init with
    | none => none
    | some init => some (f init (by simp [varParts, found]))
  marks := decl.marks
  origin := decl.origin

def mapOption (part : Option α) (f : (a : α) → a ∈ part.toList → β) : Option β :=
  match part with
  | none => none
  | some a => some (f a (by simp))

def mapTest (test : CasePattern α) (f : (a : α) → a ∈ test.parts → β) : CasePattern β :=
  match test with
  | .value part => .value (f part (by simp [CasePattern.parts]))
  | .range low high =>
    .range (f low (by simp [CasePattern.parts])) (f high (by simp [CasePattern.parts]))
  | .is op part => .is op (f part (by simp [CasePattern.parts]))

def mapParts (shape : Shape α) (f : (a : α) → a ∈ shape.children → β) : Shape β :=
  match shape with
  | type decl =>
    .type {
      name := decl.name
      visibility := decl.visibility
      members := decl.members.attach.map fun ⟨part, inside⟩ => f part inside
      marks := decl.marks }
  | field decl => .field (mapVar decl f)
  | method decl =>
    .method {
      name := decl.name
      visibility := decl.visibility
      kind := decl.kind
      params := decl.params.attach.map fun ⟨part, inside⟩ =>
        f part (List.mem_append_left _ inside)
      returnType := decl.returnType
      body := f decl.body (by simp [children])
      marks := decl.marks }
  | property decl =>
    .property {
      name := decl.name
      visibility := decl.visibility
      marks := decl.marks
      getter := mapOption decl.getter fun part inside =>
        f part (List.mem_append_left _ (List.mem_append_left _ inside))
      letter := mapOption decl.letter fun part inside =>
        f part (List.mem_append_left _ (List.mem_append_right _ inside))
      setter := mapOption decl.setter fun part inside =>
        f part (List.mem_append_right _ inside) }
  | param decl =>
    .param {
      name := decl.name
      passing := decl.passing
      marks := decl.marks
      typeName := decl.typeName
      default := mapOption decl.default f }
  | block stmts => .block (stmts.attach.map fun ⟨part, inside⟩ => f part inside)
  | localVar decl => .localVar (mapVar decl f)
  | exprStmt expr => .exprStmt (f expr (by simp [children]))
  | assign isSet target value =>
    .assign isSet (f target (by simp [children])) (f value (by simp [children]))
  | ifStmt single arms otherwise =>
    .ifStmt single
      (arms.attach.map fun ⟨arm, inside⟩ =>
        ⟨f arm.cond (List.mem_append_left _ (List.mem_flatMap.2 ⟨arm, inside, by simp⟩)),
          f arm.body (List.mem_append_left _ (List.mem_flatMap.2 ⟨arm, inside, by simp⟩))⟩)
      (mapOption otherwise fun part inside => f part (List.mem_append_right _ inside))
  | select subject cases otherwise =>
    .select (f subject (by simp [children]))
      (cases.attach.map fun ⟨arm, inside⟩ =>
        { tests := arm.tests.attach.map fun ⟨test, tested⟩ => mapTest test fun part found =>
            f part (List.mem_append_left _ (List.mem_cons_of_mem _ (List.mem_flatMap.2
              ⟨arm, inside, List.mem_append_left _ (List.mem_flatMap.2 ⟨test, tested, found⟩)⟩)))
          body := f arm.body (List.mem_append_left _ (List.mem_cons_of_mem _
            (List.mem_flatMap.2 ⟨arm, inside, by simp⟩))) })
      (mapOption otherwise fun part inside => f part (List.mem_append_right _ inside))
  | forRange counter first last step body =>
    .forRange (f counter (by simp [children])) (f first (by simp [children]))
      (f last (by simp [children]))
      (mapOption step fun part inside =>
        f part (List.mem_append_left _ (List.mem_append_right _ inside)))
      (f body (by simp [children]))
  | forEach item collection body =>
    .forEach (f item (by simp [children])) (f collection (by simp [children]))
      (f body (by simp [children]))
  | loop none body => .loop none (f body (by simp [children]))
  | loop (some test) body =>
    .loop (some ⟨test.kind, f test.cond (by simp only [children]; split <;> simp),
      test.post⟩) (f body (by simp only [children]; split <;> simp))
  | withStmt subject body =>
    .withStmt (f subject (by simp [children])) (f body (by simp [children]))
  | onError mode => .onError mode
  | exit target => .exit target
  | returnStmt value => .returnStmt (mapOption value f)
  | redim preserve target bounds =>
    .redim preserve (f target (by simp [children]))
      (bounds.attach.map fun ⟨part, inside⟩ => f part (List.mem_cons_of_mem _ inside))
  | erase target => .erase (f target (by simp [children]))
  | literal value => .literal value
  | name text => .name text
  | member object text => .member (mapOption object f) text
  | call parens callee args =>
    .call parens (f callee (by simp [children]))
      (args.attach.map fun ⟨part, inside⟩ => f part (List.mem_cons_of_mem _ inside))
  | binary op left right =>
    .binary op (f left (by simp [children])) (f right (by simp [children]))
  | unary op operand => .unary op (f operand (by simp [children]))
  | paren inner => .paren (f inner (by simp [children]))
  | new typeName args => .new typeName (args.attach.map fun ⟨part, inside⟩ => f part inside)
  | missing => .missing
  | assignedValue => .assignedValue
  | resource key text => .resource key text

end Shape

end ScriptMigration
