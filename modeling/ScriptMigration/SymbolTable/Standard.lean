import ScriptMigration.SymbolTable.Registration

/-! The symbol table of the runtime that scripts are written for: the functions and constants of the
language, the libraries whose objects scripts create, and the objects of the host. -/
namespace ScriptMigration.SymbolTable

namespace Standard

def plain (kind : Primitive) : Descriptor := .ofPrimitive kind

def arrayOf (kind : Primitive) : Descriptor := .type ((DataType.ofPrimitive kind).withRank 1)

def members (owner : ExternalType) (rows : List (String × MemberKind × Descriptor × Arity)) :
    List Registration :=
  rows.map fun (name, kind, result, arity) => .member owner name kind result arity

def functions (owner : ExternalType) (rows : List (String × Descriptor × Arity)) :
    List Registration :=
  rows.map fun (name, result, arity) => .function owner name result arity

/-- The entries for constants of one type that have one type themselves. -/
def constants (owner : ExternalType) (value : Primitive) (names : List String) :
    List Registration :=
  names.map fun name => .constant owner name (plain value)

/-! The language. -/

def languageSpace : String := "Microsoft.VisualBasic"

def languageType (name : String) : ExternalType :=
  { space := languageSpace, name, assembly := { name := languageSpace } }

def languageEnum (name : String) : ExternalType :=
  { space := languageSpace, name, assembly := { name := languageSpace }, isValueType := true }

def strings : ExternalType := languageType "Strings"
def conversion : ExternalType := languageType "Conversion"
def information : ExternalType := languageType "Information"
def dateAndTime : ExternalType := languageType "DateAndTime"
def interaction : ExternalType := languageType "Interaction"
def constantsType : ExternalType := languageType "Constants"
def messageResult : ExternalType := languageEnum "MsgBoxResultEnum"
def messageStyle : ExternalType := languageEnum "MsgBoxStyleEnum"
def compareMethod : ExternalType := languageEnum "CompareMethodEnum"
def varTypes : ExternalType := languageEnum "VarTypeEnum"
def errObject : ExternalType := languageType "ErrObject"

def math : ExternalType :=
  { space := "System", name := "Math", assembly := { name := "mscorlib" } }

def languageTypes : List ExternalType :=
  [strings, conversion, information, dateAndTime, interaction, constantsType, messageResult,
    messageStyle, compareMethod, varTypes, math, errObject]

def language : List Registration :=
  languageTypes.map .type
  ++ members errObject
    [("Number", .property, plain .int32, .none),
     ("Description", .property, plain .string, .none),
     ("Source", .property, plain .string, .none), ("Clear", .method, plain .void, .none),
     ("Raise", .method, plain .void, .range 1 5)]
  ++ [.errorType errObject]
  ++ functions strings
    [("Len", plain .int32, .exact 1), ("Left", plain .string, .exact 2),
     ("Right", plain .string, .exact 2), ("Mid", plain .string, .range 2 3),
     ("UCase", plain .string, .exact 1), ("LCase", plain .string, .exact 1),
     ("Trim", plain .string, .exact 1), ("LTrim", plain .string, .exact 1),
     ("RTrim", plain .string, .exact 1), ("InStr", plain .int32, .range 2 4),
     ("InStrRev", plain .int32, .range 2 4), ("Replace", plain .string, .range 3 6),
     ("Split", arrayOf .string, .range 1 4), ("Join", plain .string, .range 1 2),
     ("Chr", plain .string, .exact 1), ("Asc", plain .int32, .exact 1),
     ("Space", plain .string, .exact 1), ("StrComp", plain .int32, .range 2 3),
     ("StrReverse", plain .string, .exact 1), ("FormatNumber", plain .string, .range 1 5),
     ("FormatCurrency", plain .string, .range 1 5),
     ("FormatDateTime", plain .string, .range 1 2)]
  ++ functions conversion
    [("CStr", plain .string, .exact 1), ("CInt", plain .int16, .exact 1),
     ("CLng", plain .int32, .exact 1), ("CDbl", plain .double, .exact 1),
     ("CSng", plain .single, .exact 1), ("CBool", plain .bool, .exact 1),
     ("CDate", plain .dateTime, .exact 1), ("CCur", plain .decimal, .exact 1),
     ("CByte", plain .byte, .exact 1), ("Int", plain .double, .exact 1),
     ("Fix", plain .double, .exact 1), ("Hex", plain .string, .exact 1),
     ("Oct", plain .string, .exact 1)]
  ++ functions information
    [("IsNull", plain .bool, .exact 1), ("IsEmpty", plain .bool, .exact 1),
     ("IsNumeric", plain .bool, .exact 1), ("IsObject", plain .bool, .exact 1),
     ("IsArray", plain .bool, .exact 1), ("IsDate", plain .bool, .exact 1),
     ("UBound", plain .int32, .range 1 2), ("LBound", plain .int32, .range 1 2),
     ("TypeName", plain .string, .exact 1), ("VarType", plain .int32, .exact 1)]
  ++ functions dateAndTime
    [("DateAdd", plain .dateTime, .exact 3), ("DateDiff", plain .int32, .range 3 5),
     ("DatePart", plain .int32, .range 2 4), ("DateSerial", plain .dateTime, .exact 3),
     ("TimeSerial", plain .dateTime, .exact 3), ("DateValue", plain .dateTime, .exact 1),
     ("Year", plain .int32, .exact 1), ("Month", plain .int32, .exact 1),
     ("Day", plain .int32, .exact 1), ("Hour", plain .int32, .exact 1),
     ("Minute", plain .int32, .exact 1), ("Second", plain .int32, .exact 1),
     ("Weekday", plain .int32, .range 1 2), ("MonthName", plain .string, .range 1 2),
     ("Timer", plain .single, .none)]
  ++ functions interaction
    [("MsgBox", plain .int32, .range 1 5), ("InputBox", plain .string, .range 1 7),
     ("CreateObject", plain .object, .range 1 2), ("GetObject", plain .object, .range 0 2),
     ("Array", arrayOf .object, .atLeast 0)]
  ++ functions math
    [("Abs", plain .double, .exact 1), ("Sqr", plain .double, .exact 1),
     ("Round", plain .double, .range 1 2), ("Rnd", plain .single, .range 0 1),
     ("Randomize", plain .void, .range 0 1), ("Sgn", plain .int32, .exact 1),
     ("Atn", plain .double, .exact 1), ("Cos", plain .double, .exact 1),
     ("Sin", plain .double, .exact 1), ("Tan", plain .double, .exact 1),
     ("Exp", plain .double, .exact 1), ("Log", plain .double, .exact 1)]
  ++ constants constantsType .string
    ["vbCrLf", "vbCr", "vbLf", "vbTab", "vbNullString", "vbNewLine"]
  ++ constants constantsType .int32
    ["vbOK", "vbCancel", "vbYes", "vbNo", "vbOKOnly", "vbYesNo"]
  ++ constants messageResult .int32
    ["vbOK", "vbCancel", "vbAbort", "vbRetry", "vbIgnore", "vbYes", "vbNo"]
  ++ constants messageStyle .int32
    ["vbOKOnly", "vbOKCancel", "vbYesNo", "vbYesNoCancel", "vbCritical", "vbQuestion",
     "vbExclamation", "vbInformation"]
  ++ constants compareMethod .int32
    ["vbBinaryCompare", "vbTextCompare"]
  ++ constants varTypes .int32
    ["vbEmpty", "vbNull", "vbInteger", "vbLong", "vbSingle", "vbDouble", "vbCurrency", "vbDate",
     "vbString", "vbObject", "vbBoolean", "vbArray"]

/-! Dictionaries and files. -/

def scriptingAssembly : Assembly :=
  { name := "Interop.Scripting", location := some "lib/Interop.Scripting.dll" }

def dictionary : ExternalType :=
  { space := "Scripting", name := "Dictionary", assembly := scriptingAssembly }

def fileSystem : ExternalType :=
  { space := "Scripting", name := "FileSystemObject", assembly := scriptingAssembly }

def textStream : ExternalType :=
  { space := "Scripting", name := "TextStream", assembly := scriptingAssembly }

def file : ExternalType :=
  { space := "Scripting", name := "File", assembly := scriptingAssembly }

def scripting : List Registration :=
  [.type dictionary, .type fileSystem, .type textStream, .type file]
  ++ members dictionary
    [("Add", .method, plain .void, .exact 2), ("Exists", .method, plain .bool, .exact 1),
     ("Item", .property, plain .object, .exact 1), ("Items", .method, arrayOf .object, .none),
     ("Keys", .method, arrayOf .object, .none), ("Remove", .method, plain .void, .exact 1),
     ("RemoveAll", .method, plain .void, .none), ("Count", .property, plain .int32, .none),
     ("CompareMode", .property, plain .int32, .none)]
  ++ [.defaultMember dictionary "Item"]
  ++ members fileSystem
    [("FileExists", .method, plain .bool, .exact 1),
     ("FolderExists", .method, plain .bool, .exact 1),
     ("OpenTextFile", .method, .ofExternal textStream, .range 1 4),
     ("CreateTextFile", .method, .ofExternal textStream, .range 1 3),
     ("DeleteFile", .method, plain .void, .range 1 2),
     ("GetFile", .method, .ofExternal file, .exact 1),
     ("BuildPath", .method, plain .string, .exact 2),
     ("GetTempName", .method, plain .string, .none)]
  ++ members textStream
    [("ReadLine", .method, plain .string, .none), ("ReadAll", .method, plain .string, .none),
     ("Write", .method, plain .void, .exact 1), ("WriteLine", .method, plain .void, .range 0 1),
     ("Close", .method, plain .void, .none), ("AtEndOfStream", .property, plain .bool, .none)]
  ++ members file
    [("Name", .property, plain .string, .none), ("Path", .property, plain .string, .none),
     ("Size", .property, plain .int32, .none),
     ("DateLastModified", .property, plain .dateTime, .none)]
  ++ [.className "Scripting.Dictionary" dictionary,
     .className "Scripting.FileSystemObject" fileSystem]

/-! Databases. -/

def adoAssembly : Assembly := { name := "ADODB", location := some "lib/ADODB.dll" }

def adoConnection : ExternalType :=
  { space := "ADODB", name := "Connection", assembly := adoAssembly }

def recordset : ExternalType :=
  { space := "ADODB", name := "Recordset", assembly := adoAssembly }

def adoCommand : ExternalType :=
  { space := "ADODB", name := "Command", assembly := adoAssembly }

def adoFields : ExternalType :=
  { space := "ADODB", name := "Fields", assembly := adoAssembly }

def adoField : ExternalType :=
  { space := "ADODB", name := "Field", assembly := adoAssembly }

def databases : List Registration :=
  [.type adoConnection, .type recordset, .type adoCommand, .type adoFields, .type adoField]
  ++ members adoConnection
    [("Open", .method, plain .void, .range 0 4), ("Close", .method, plain .void, .none),
     ("Execute", .method, .ofExternal recordset, .range 1 3),
     ("BeginTrans", .method, plain .int32, .none), ("CommitTrans", .method, plain .void, .none),
     ("RollbackTrans", .method, plain .void, .none), ("State", .property, plain .int32, .none),
     ("ConnectionString", .property, plain .string, .none)]
  ++ members recordset
    [("Open", .method, plain .void, .range 0 5), ("Close", .method, plain .void, .none),
     ("MoveNext", .method, plain .void, .none), ("MoveFirst", .method, plain .void, .none),
     ("MoveLast", .method, plain .void, .none), ("MovePrevious", .method, plain .void, .none),
     ("AddNew", .method, plain .void, .range 0 2), ("Update", .method, plain .void, .range 0 2),
     ("Delete", .method, plain .void, .range 0 1), ("EOF", .property, plain .bool, .none),
     ("BOF", .property, plain .bool, .none), ("RecordCount", .property, plain .int32, .none),
     ("Fields", .property, .ofExternal adoFields, .none)]
  ++ [.defaultMember recordset "Fields"]
  ++ members adoCommand
    [("ActiveConnection", .property, .ofExternal adoConnection, .none),
     ("CommandText", .property, plain .string, .none),
     ("Execute", .method, .ofExternal recordset, .range 0 3)]
  ++ members adoFields
    [("Item", .property, .ofExternal adoField, .exact 1),
     ("Count", .property, plain .int32, .none)]
  ++ [.defaultMember adoFields "Item"]
  ++ members adoField
    [("Value", .property, plain .object, .none), ("Name", .property, plain .string, .none),
     ("Type", .property, plain .int32, .none)]
  ++ [.defaultMember adoField "Value"]
  ++ [.className "ADODB.Connection" adoConnection, .className "ADODB.Recordset" recordset,
     .className "ADODB.Command" adoCommand]

/-! Documents. -/

def xmlAssembly : Assembly := { name := "System.Xml" }

def xmlDocument : ExternalType :=
  { space := "System.Xml", name := "XmlDocument", assembly := xmlAssembly }

def xmlNode : ExternalType :=
  { space := "System.Xml", name := "XmlNode", assembly := xmlAssembly }

def xmlNodeList : ExternalType :=
  { space := "System.Xml", name := "XmlNodeList", assembly := xmlAssembly }

def documents : List Registration :=
  [.type xmlDocument, .type xmlNode, .type xmlNodeList]
  ++ members xmlDocument
    [("LoadXml", .method, plain .void, .exact 1), ("Load", .method, plain .void, .exact 1),
     ("Save", .method, plain .void, .exact 1),
     ("SelectSingleNode", .method, .ofExternal xmlNode, .exact 1),
     ("SelectNodes", .method, .ofExternal xmlNodeList, .exact 1),
     ("DocumentElement", .property, .ofExternal xmlNode, .none),
     ("OuterXml", .property, plain .string, .none)]
  ++ members xmlNode
    [("InnerText", .property, plain .string, .none),
     ("OuterXml", .property, plain .string, .none),
     ("SelectSingleNode", .method, .ofExternal xmlNode, .exact 1),
     ("Attributes", .property, plain .object, .none)]
  ++ members xmlNodeList
    [("Count", .property, plain .int32, .none), ("Item", .method, .ofExternal xmlNode, .exact 1)]
  ++ [.defaultMember xmlNodeList "Item"]
  ++ ["MSXML2.DOMDocument", "MSXML2.DOMDocument.6.0", "Microsoft.XMLDOM"].map fun name =>
      .className name xmlDocument

/-! The host and its forms. -/

def hostAssembly : Assembly := { name := "Crm.Runtime", location := some "lib/Crm.Runtime.dll" }

def application : ExternalType :=
  { space := "Crm.Runtime", name := "Application", assembly := hostAssembly }

def translator : ExternalType :=
  { space := "Crm.Runtime", name := "Translator", assembly := hostAssembly }

def form : ExternalType :=
  { space := "Crm.Runtime", name := "Form", assembly := hostAssembly }

def formField : ExternalType :=
  { space := "Crm.Runtime", name := "Field", assembly := hostAssembly }

def formSurface : List (String × MemberKind × Descriptor × Arity) :=
  [("Caption", .property, plain .string, .none), ("Name", .property, plain .string, .none),
   ("IsDirty", .property, plain .bool, .none), ("Controls", .property, plain .object, .none),
   ("Field", .method, .ofExternal formField, .exact 1), ("Refresh", .method, plain .void, .none),
   ("Save", .method, plain .bool, .none), ("Close", .method, plain .void, .none)]

def host : List Registration :=
  [.type application, .type translator, .type form, .type formField]
  ++ members translator
    [("Translate", .method, plain .string, .exact 1),
     ("Language", .property, plain .string, .none)]
  ++ members application
    [("Translator", .property, .ofExternal translator, .none),
     ("UserName", .property, plain .string, .none),
     ("CurrentForm", .property, .ofExternal form, .none),
     ("Database", .property, .ofExternal adoConnection, .none),
     ("GetSetting", .method, plain .string, .range 1 2), ("Log", .method, plain .void, .exact 1)]
  ++ [.applicationType application]
  ++ members formField
    [("Value", .property, plain .object, .none), ("Name", .property, plain .string, .none),
     ("Visible", .property, plain .bool, .none), ("Enabled", .property, plain .bool, .none)]
  ++ [.defaultMember formField "Value"]
  ++ formSurface.map (fun (name, kind, result, _) => .formMember name kind result)
  ++ members form formSurface
  ++ [.formType form]

/-! Names with a fixed meaning. -/

def colors : List String :=
  ["vbBlack", "vbRed", "vbGreen", "vbYellow", "vbBlue", "vbMagenta", "vbCyan", "vbWhite"]

def specialNames : List Registration :=
  [.specialName "Me" .me, .specialName "Now" .now, .specialName "Date" .date,
    .specialName "Time" .time, .specialName "Err" .err, .specialName "Application" .application]
  ++ colors.map fun name => .specialName name .color

def entries : List Registration :=
  language ++ scripting ++ databases ++ documents ++ host ++ specialNames

end Standard

def standard : SymbolTable :=
  match Standard.entries.foldlM register empty with
  | .ok table => table
  | .error _ => empty

end ScriptMigration.SymbolTable
