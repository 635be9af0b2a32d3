import ScriptMigration.Proofs.Draft.Kinds
import ScriptMigration.Proofs.Resolution.Memo
import ScriptMigration.Proofs.Resolution.Touches

/-! Where the types of expressions come from. What is found out about an expression is fixed, noted,
declared or listed somewhere, or it is made of such types. So a property of types that all these
sources have is one of every judgement. -/
namespace ScriptMigration.Surroundings

/-- What is to be known of a type before a script is looked at: it is fixed, or listed, or declared
somewhere. -/
inductive Offers (around : Surroundings) : Descriptor → Prop where
  | fixed {type : Descriptor} (foreign : type.Foreign) : Offers around type
  | symbolMember {print : Fingerprint} {member : SymbolMember}
      (listed : around.symbols.members[print]? = some member) : Offers around member.result
  | constant {print : Fingerprint} {constant : SymbolConstant}
      (listed : around.symbols.constants[print]? = some constant) : Offers around constant.value
  | function {print : Fingerprint} {function : SymbolFunction}
      (listed : around.symbols.functions[print]? = some function) : Offers around function.result
  | formSymbol {name : FoldedName} {symbol : FormSymbol}
      (listed : around.symbols.formMembers[name]? = some symbol) : Offers around symbol.result
  | form {form : HostForm} {name : String} {type : Descriptor} (isForm : around.form = some form)
      (found : form.find? name = some type) : Offers around type
  | scope {type : NodeId} {scope : MemberScope} (listed : around.types[type]? = some scope) :
      Offers around (.ofScript ⟨around.script, type⟩ scope.name)
  | member {type : NodeId} {name : String} {member : Node} {found : Descriptor}
      (listed : around.types[type]?.bind (·.find? name) = some member)
      (stands : around.declDescriptor? ⟨around.script, member.id⟩ = some found) :
      Offers around found
  | dependency {name : String} {decl : DeclRef} {found : Descriptor}
      (listed : around.dependencies.find? name = some decl)
      (stands : around.declDescriptor? decl = some found) : Offers around found
  | elsewhere {decl : DeclRef} {found : Descriptor} (other : decl.script ≠ around.script)
      (stands : around.declDescriptor? decl = some found) : Offers around found

/-- What a visit can find out about the type of an expression. -/
inductive Supplies (around : Surroundings) (notes : Notes) (bodies : Std.HashMap NodeId LocalScope)
    (place : Place) : Descriptor → Prop where
  | offered {type : Descriptor} (offers : around.Offers type) :
      Supplies around notes bodies place type
  | noted {id : NodeId} {type : Descriptor} (found : notes.descriptor? id = some type) :
      Supplies around notes bodies place type
  | followed {id : NodeId} {type : Descriptor} (leads : around.followed? notes id = some type) :
      Supplies around notes bodies place type
  | element {type : Descriptor} (whole : Supplies around notes bodies place type) :
      Supplies around notes bodies place type.element
  | merged {left right : Descriptor} (first : Supplies around notes bodies place left)
      (second : Supplies around notes bodies place right) (known : left.isDeferred = false)
      (known' : right.isDeferred = false) :
      Supplies around notes bodies place (left.merge .empty right)
  | ownType {node : Node} {found : Descriptor} (inside : node ∈ place.around)
      (isType : node.shape.isType)
      (stands : around.declDescriptor? ⟨around.script, node.id⟩ = some found) :
      Supplies around notes bodies place found
  | property {node : Node} (inside : node ∈ place.around)
      (isProperty : node.shape.family = .property) :
      Supplies around notes bodies place (.deferred ⟨around.script, node.id⟩)
  | returnValue {method : Node} (isMethod : place.method? = some method) :
      Supplies around notes bodies place (.deferred ⟨around.script, method.id⟩)
  | inBody {method id : NodeId} {scope : LocalScope} {name : String}
      (body : bodies[method]? = some scope)
      (named : scope.local? name = some id ∨ scope.param? name = some id) :
      Supplies around notes bodies place (.deferred ⟨around.script, id⟩)

variable {around : Surroundings} {notes : Notes} {bodies : Std.HashMap NodeId LocalScope}
  {place : Place}

theorem followed?_known {id : NodeId} {descriptor : Descriptor}
    (found : around.followed? notes id = some descriptor) : descriptor.isDeferred = false := by
  obtain ⟨first, _, leads⟩ := Option.bind_eq_some_iff.1 found
  exact Descriptor.isDeferred_of_follow leads

namespace Offers

theorem object : around.Offers .object := .fixed ⟨rfl, rfl⟩

theorem getD {found : Option Descriptor}
    (offers : ∀ type, found = some type → around.Offers type) :
    around.Offers (found.getD .object) := by
  cases found with
  | none => exact .object
  | some type => exact offers type rfl

theorem formMember (name : String) :
    around.Offers (around.formMemberDescriptor name) := by
  refine .getD fun type found => ?_
  rcases Option.or_eq_some_iff.1 found with ofForm | ⟨_, ofSymbols⟩
  · obtain ⟨form, isForm, taken⟩ := Option.bind_eq_some_iff.1 ofForm
    exact .form isForm taken
  · obtain ⟨symbol, listed, rfl⟩ := Option.map_eq_some_iff.1 ofSymbols
    exact .formSymbol listed

theorem typeAround? {name : String} {context : List NodeId} {type : Descriptor}
    (found : around.typeAround? name context = some type) :
    around.Offers type := by
  induction context with
  | nil => exact nomatch found
  | cons inner outer ih =>
    simp only [Surroundings.typeAround?] at found
    split at found
    · exact nomatch found
    · rename_i scope listed
      split at found
      · exact Option.some.inj found ▸ .scope listed
      · split at found
        · rename_i nested isNested
          obtain rfl := Option.some.inj found
          obtain ⟨named, _⟩ := Option.filter_eq_some_iff.1 isNested
          have isMember : around.types[inner]?.bind (·.find? name) = some nested := by
            simp [listed, named]
          exact .getD fun _ stands => .member isMember stands
        · exact ih found

theorem typeNamed (context : List NodeId) (name : String) :
    around.Offers (around.typeNamed context name) := by
  unfold Surroundings.typeNamed
  dsimp only
  split
  · exact .fixed ⟨rfl, rfl⟩
  · refine .getD fun type found => ?_
    rcases Option.or_eq_some_iff.1 found with inTypes | ⟨_, later⟩
    · exact .typeAround? inTypes
    · rcases Option.or_eq_some_iff.1 later with included | ⟨_, external⟩
      · obtain ⟨decl, taken, stands⟩ := Option.bind_eq_some_iff.1 included
        exact .dependency (Option.filter_eq_some_iff.1 taken).1 stands
      · obtain ⟨type, _, rfl⟩ := Option.map_eq_some_iff.1 external
        exact .fixed ⟨rfl, rfl⟩

theorem special (word : SpecialName) :
    around.Offers (around.symbols.specialDescriptor word) := by
  cases word with
  | now | date | time | color => exact .fixed ⟨rfl, rfl⟩
  | me => exact .object
  | _ =>
    dsimp only [SymbolTable.specialDescriptor]
    split <;> exact .fixed ⟨rfl, rfl⟩

end Offers

namespace Supplies

theorem fixed {type : Descriptor} (foreign : type.Foreign) :
    around.Supplies notes bodies place type := .offered (.fixed foreign)

theorem object : around.Supplies notes bodies place .object := .offered .object

theorem getD {found : Option Descriptor}
    (supplies : ∀ type, found = some type → around.Supplies notes bodies place type) :
    around.Supplies notes bodies place (found.getD .object) := by
  cases found with
  | none => exact .object
  | some type => exact supplies type rfl

theorem known {final : Bool} {found : Option Descriptor} {type : Descriptor}
    (supplies : ∀ other, found = some other → around.Supplies notes bodies place other)
    (taken : Typing.known final found = some type) : around.Supplies notes bodies place type := by
  unfold Typing.known at taken
  split at taken
  · exact Option.some.inj taken ▸ .getD supplies
  · exact supplies type taken

theorem logical {final : Bool} {operands : List (Option Descriptor)} {type : Descriptor}
    (found : (Typing.logical final operands).descriptor = some type) :
    around.Supplies notes bodies place type := by
  simp only [Typing.logical] at found
  split at found
  · simp at found
  · split at found <;>
    · obtain rfl := Option.some.inj found
      exact .fixed ⟨rfl, rfl⟩

/-- An operand of which the type is known, or that is taken for `object`. -/
theorem operand {final : Bool} {id : NodeId} {type : Descriptor}
    (taken : Typing.known final (around.followed? notes id) = some type) :
    around.Supplies notes bodies place type ∧ type.isDeferred = false := by
  refine ⟨.known (fun _ => .followed) taken, ?_⟩
  unfold Typing.known at taken
  split at taken
  · obtain rfl := Option.some.inj taken
    cases leads : around.followed? notes id with
    | none => rfl
    | some other => exact followed?_known leads
  · exact followed?_known taken

theorem arithmetic (op : BinaryOp) {left right : Descriptor}
    (first : around.Supplies notes bodies place left) (known : left.isDeferred = false)
    (second : around.Supplies notes bodies place right) (known' : right.isDeferred = false) :
    around.Supplies notes bodies place (Typing.arithmetic op left right) := by
  unfold Typing.arithmetic
  split
  · split
    · exact .merged first second known known'
    · split
      · exact .fixed ⟨rfl, rfl⟩
      · split <;> exact .fixed ⟨rfl, rfl⟩
  · exact .object

theorem binary {final : Bool} {op : BinaryOp} {left right : NodeId} {type : Descriptor}
    (found : (Typing.binary final op (around.followed? notes left)
      (around.followed? notes right)).descriptor = some type) :
    around.Supplies notes bodies place type := by
  obtain ⟨_, same⟩ | ⟨_, ⟨_, same⟩ | ⟨_, _, isLeft, isRight, same⟩ | ⟨_, same⟩⟩ :=
    Typing.binary_cases final op (around.followed? notes left) (around.followed? notes right)
  · exact .logical (same ▸ found)
  · rw [same] at found
    exact Option.some.inj found ▸ .fixed ⟨rfl, rfl⟩
  · rw [same] at found
    obtain ⟨first, known⟩ := operand isLeft
    obtain ⟨second, known'⟩ := operand isRight
    exact Option.some.inj found ▸ .arithmetic _ first known second known'
  · simp [same] at found

theorem unary {final : Bool} {op : UnaryOp} {id : NodeId} {type : Descriptor}
    (found : (Typing.unary final op (around.followed? notes id)).descriptor = some type) :
    around.Supplies notes bodies place type := by
  cases op with
  | not => exact .logical found
  | neg | plus => exact .known (fun _ => .followed) found

theorem indexed {target : Descriptor} (supplies : around.Supplies notes bodies place target) :
    around.Supplies notes bodies place (around.indexed target) := by
  unfold Surroundings.indexed
  split
  · split
    · exact .element supplies
    · split
      · refine .getD fun type found => ?_
        obtain ⟨member, isDefault, rfl⟩ := Option.map_eq_some_iff.1 found
        obtain ⟨print, _, listed⟩ := Option.bind_eq_some_iff.1 isDefault
        exact .offered (.symbolMember listed)
      · exact .object
  · exact .object

theorem call {final : Bool} {callee : Node} {args : List Node} {type : Descriptor}
    (found : (around.callTyped final notes callee args).descriptor = some type) :
    around.Supplies notes bodies place type := by
  have target (taken : Typing.known final (around.followed? notes callee.id) = some type) :
      around.Supplies notes bodies place type := .known (fun _ => .followed) taken
  have applied (taken : (if args.isEmpty then
      Typing.known final (around.followed? notes callee.id) else
      Typing.known final ((around.followed? notes callee.id).map around.indexed)) = some type) :
      around.Supplies notes bodies place type := by
    split at taken
    · exact target taken
    · refine .known (fun other isOther => ?_) taken
      obtain ⟨whole, leads, rfl⟩ := Option.map_eq_some_iff.1 isOther
      exact .indexed (.followed leads)
  unfold callTyped at found
  dsimp only at found
  cases noted : notes.binding? callee.id with
  | none =>
    simp only [noted] at found
    exact applied found
  | some binding =>
    simp only [noted] at found
    cases binding with
    | function print =>
      dsimp only at found
      split at found
      · rename_i function listed
        obtain rfl := Option.some.inj found
        split
        · exact .fixed ⟨rfl, rfl⟩
        · exact .offered (.function listed)
      · exact Option.some.inj found ▸ .object
    | member decl | outer decl | dependency decl =>
      dsimp only at found
      split at found
      · exact target found
      · exact applied found
    | external print =>
      dsimp only at found
      split at found
      · exact target found
      · exact applied found
    | _ => exact applied found

theorem memberTyped {final : Bool} {cache : MemberMemo} (faithful : cache.Faithful around.symbols)
    {target : Option Descriptor} {name : String} {type : Descriptor}
    (found : (around.memberTyped final cache target name).1.descriptor = some type) :
    around.Supplies notes bodies place type := by
  have late (isLate : some Descriptor.object = some type) :
      around.Supplies notes bodies place type := Option.some.inj isLate ▸ .object
  unfold Surroundings.memberTyped at found
  split at found
  · split at found
    · exact late found
    · simp at found
  · rename_i external _
    have looked := (faithful.getOrInsert external.print name).1
    dsimp only at found
    rw [looked] at found
    split at found
    · rename_i member listed
      obtain rfl := Option.some.inj found
      exact .offered (.symbolMember listed)
    · exact late found
  · split at found
    · rename_i decl isMember
      refine .known (fun other stands => ?_) found
      unfold memberInScript? at isMember
      split at isMember
      · obtain ⟨member, listed, rfl⟩ := Option.map_eq_some_iff.1 isMember
        exact .offered (.member listed stands)
      · rename_i differs
        obtain ⟨member, _, rfl⟩ := Option.map_eq_some_iff.1 isMember
        exact .offered (.elsewhere (by simpa using differs) stands)
    · exact late found
  · split at found
    · exact Option.some.inj found ▸ .offered (.formMember name)
    · exact late found
  · exact late found

theorem named {name : String} {binding : Binding} {type : Descriptor}
    (finding : around.Finding bodies place name binding)
    (found : around.bindingDescriptor? place binding = some type) :
    around.Supplies notes bodies place type := by
  unfold bindingDescriptor? at found
  cases finding with
  | returnValue isMethod => exact Option.some.inj found ▸ .returnValue isMethod
  | localVar _ body taken => exact Option.some.inj found ▸ .inBody body (.inl taken)
  | param _ body taken => exact Option.some.inj found ▸ .inBody body (.inr taken)
  | member _ listed | outer _ listed => exact .offered (.member listed found)
  | dependency listed => exact .offered (.dependency listed found)
  | form => exact Option.some.inj found ▸ .fixed ⟨rfl, rfl⟩
  | formMember => exact Option.some.inj found ▸ .offered (.formMember name)
  | constant print =>
    obtain ⟨constant, listed, rfl⟩ := Option.map_eq_some_iff.1 found
    exact .offered (.constant listed)
  | function print =>
    obtain ⟨function, listed, rfl⟩ := Option.map_eq_some_iff.1 found
    exact .offered (.function listed)
  | special word =>
    cases word with
    | me =>
      obtain rfl := Option.some.inj found
      refine .getD fun type own => ?_
      obtain ⟨node, isType, stands⟩ := Option.bind_eq_some_iff.1 own
      have shape := List.find?_some isType
      exact .ownType (List.mem_of_find?_eq_some isType) shape stands
    | _ => exact Option.some.inj found ▸ .offered (.special _)

end Supplies

theorem typed_supplies {final : Bool} {cache : MemberMemo}
    (faithful : cache.Faithful around.symbols) {type : Descriptor}
    (found : (around.typed final notes bodies cache place).1.descriptor = some type) :
    around.Supplies notes bodies place type := by
  unfold typed at found
  dsimp only at found
  cases shape : place.node.shape with
  | literal value =>
    simp only [shape] at found
    refine Option.some.inj found ▸ .fixed ?_
    cases value <;> exact ⟨rfl, rfl⟩
  | missing | resource =>
    simp only [shape] at found
    exact Option.some.inj found ▸ .fixed ⟨rfl, rfl⟩
  | assignedValue =>
    simp only [shape] at found
    split at found
    · rename_i property isFound
      have isProperty := List.find?_some isFound
      refine Option.some.inj found ▸ .property (List.mem_of_find?_eq_some isFound) ?_
      split at isProperty
      · rename_i decl isDecl
        rw [isDecl]
        rfl
      · exact nomatch isProperty
    · exact Option.some.inj found ▸ .object
  | paren inner =>
    simp only [shape] at found
    exact .known (fun _ => .noted) found
  | new typeName args =>
    simp only [shape] at found
    exact Option.some.inj found ▸ .offered (.typeNamed _ _)
  | name text =>
    simp only [shape, nameTyped] at found
    split at found
    · rename_i binding taken
      exact .known (fun _ => .named (find?_eq_some taken)) found
    · split at found
      · simp at found
      · split at found
        · exact Option.some.inj found ▸ .object
        · simp at found
  | member object name =>
    simp only [shape] at found
    split at found
    · exact Option.some.inj found ▸ .object
    · exact .memberTyped faithful found
  | call parens callee args =>
    simp only [shape] at found
    exact .call found
  | binary op left right =>
    simp only [shape] at found
    exact .binary found
  | unary op operand =>
    simp only [shape] at found
    exact .unary found
  | _ =>
    simp only [shape] at found
    simp at found

end ScriptMigration.Surroundings
