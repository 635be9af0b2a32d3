import ScriptMigration.Resolution.Surroundings

/-! What a name stands for. The first of these that has the name counts: the function around it,
whose value it is; the form; the local variables and the parameters of the procedure; the members
of the type and of the types around it; the scripts that are included; the members of the form; the
constants, the functions and the special names of the symbol table. -/
namespace ScriptMigration.Surroundings

/-- The type of a reference to a declaration: the type itself for the declaration of a type, and
what will be known of it for any other. -/
def declDescriptor? (around : Surroundings) (decl : DeclRef) : Option Descriptor :=
  if around.sees decl.script then
    match (around.node? decl).bind Node.typeDecl? with
    | some type => some (.ofScript decl type.name)
    | none => some (.deferred decl)
  else none

/-- Whether a name is the value of the function around it. It is not where it is called with
arguments. -/
def isOwnResult (place : Place) (method : MethodDecl Node) (name : String) : Bool :=
  method.kind.returnsValue && sameName method.name name
    && match place.parent?.map Node.shape with
      | some (.call _ callee args) => callee.id != place.node.id || args.isEmpty
      | _ => true

def onForm (around : Surroundings) (name : String) : Bool :=
  around.form.any fun form => (form.find? name).isSome || (around.symbols.formMember? name).isSome

/-- The member that a name stands for among those of the given types, the innermost first. -/
def memberAround? (around : Surroundings) (name : String) : List NodeId → Option NodeId
  | [] => none
  | type :: outer =>
    match around.types[type]?.bind (·.find? name) with
    | some member => some member.id
    | none => around.memberAround? name outer

def typeBinding? (around : Surroundings) (name : String) : List NodeId → Option Binding
  | [] => none
  | type :: outer =>
    match around.types[type]?.bind (·.find? name) with
    | some member => some (.member ⟨around.script, member.id⟩)
    | none => (around.memberAround? name outer).map fun member => .outer ⟨around.script, member⟩

def bodyBinding? (body : LocalScope) (name : String) : Option Binding :=
  ((body.local? name).map .localVar).or ((body.param? name).map .param)

def symbolBinding? (around : Surroundings) (name : String) : Option Binding :=
  ((around.symbols.constant? name).map fun constant => .constant constant.print).or
    (((around.symbols.function? name).map fun function => .function function.print).or
      ((around.symbols.specialName? name).map .special))

def find? (around : Surroundings) (bodies : Std.HashMap NodeId LocalScope) (place : Place)
    (name : String) : Option Binding :=
  let method := place.method?
  let own := method.bind fun node =>
    (node.methodDecl?.filter fun decl => isOwnResult place decl name).map fun _ =>
      Binding.returnValue node.id
  let form := (around.form.filter fun form => sameName form.name name).map fun _ => Binding.form
  let inBody := (method.bind fun node => bodies[node.id]?).bind (bodyBinding? · name)
  let inTypes := around.typeBinding? name (place.types.map Node.id)
  let included := (around.dependencies.find? name).map Binding.dependency
  let formMember := if around.onForm name then some (Binding.formMember name) else none
  own.or <| form.or <| inBody.or <| inTypes.or <| included.or <| formMember.or <|
    around.symbolBinding? name

def formMemberDescriptor (around : Surroundings) (name : String) : Descriptor :=
  ((around.form.bind (·.find? name)).or
    ((around.symbols.formMember? name).map (·.result))).getD .object

def bindingDescriptor? (around : Surroundings) (place : Place) : Binding → Option Descriptor
  | .returnValue decl | .localVar decl | .param decl => some (.deferred ⟨around.script, decl⟩)
  | .member decl | .outer decl | .dependency decl => around.declDescriptor? decl
  | .form => some .form
  | .formMember name => some (around.formMemberDescriptor name)
  | .constant print => around.symbols.constants[print]?.map (·.value)
  | .function print => around.symbols.functions[print]?.map (·.result)
  | .special .me =>
    let own := place.type?.bind fun type => around.declDescriptor? ⟨around.script, type.id⟩
    some (own.getD .object)
  | .special name => some (around.symbols.specialDescriptor name)
  | .external print => around.symbols.members[print]?.map (·.result)
  | .late | .unresolved => some .object

def memberInScript? (around : Surroundings) (type : DeclRef) (name : String) : Option DeclRef :=
  if type.script == around.script then
    (around.types[type.node]?.bind (·.find? name)).map fun member => ⟨around.script, member.id⟩
  else
    ((around.node? type).bind (·.findMember? name)).map fun member => ⟨type.script, member.id⟩

/-- A member of a type of the script is bound as such, a member of another script as part of what
the script includes. -/
def bindMember (around : Surroundings) (decl : DeclRef) : Binding :=
  if decl.script == around.script then .member decl else .dependency decl

/-- The type that a name means inside the given types, the innermost first. -/
def typeAround? (around : Surroundings) (name : String) : List NodeId → Option Descriptor
  | [] => none
  | type :: outer =>
    match around.types[type]? with
    | none => none
    | some scope =>
      if sameName scope.name name then some (.ofScript ⟨around.script, type⟩ scope.name)
      else
        match scope.findType? name with
        | some nested =>
          some ((around.declDescriptor? ⟨around.script, nested.id⟩).getD .object)
        | none => around.typeAround? name outer

/-- The type that a declaration or a `New` names. What is not known is `object`. -/
def typeNamed (around : Surroundings) (context : List NodeId) (name : String) : Descriptor :=
  let included := ((around.dependencies.find? name).filter fun decl =>
    ((around.node? decl).any (·.shape.isType))).bind around.declDescriptor?
  match Primitive.ofDeclaredName? name with
  | some kind => .ofPrimitive kind
  | none =>
    ((around.typeAround? name context).or <| included.or <|
      (around.symbols.typeNamed? name).map .ofExternal).getD .object

def calledParams? (around : Surroundings) (decl : DeclRef) : Option (List Node) :=
  match (around.node? decl).map Node.shape with
  | some (.method method) => some method.params
  | some (.property property) =>
    (property.getter.bind Node.methodDecl?).bind fun getter =>
      if getter.params.isEmpty then none else some getter.params
  | _ => none

end ScriptMigration.Surroundings
