/-
  ShellQuery.Error

  Why a query is rejected before anything is sent. Each cause is a constructor; its wording is in
  one function for argument faults and in one for errors.
-/
import ShellQuery.Operation.Kind
import ShellQuery.Operation.Modifier

namespace ShellQuery

/-! ## Faults in arguments -/

/-- What the value of an option must be. -/
inductive OptionType where
  | boolean
  | count
  | count32
  | string
  | object
  | indexReference
deriving DecidableEq, Repr

/-- The wording of an option's type. -/
def OptionType.description : OptionType → String
  | .boolean => "a boolean"
  | .count => "a non-negative integer"
  | .count32 => "a non-negative 32-bit integer"
  | .string => "a string"
  | .object => "an object"
  | .indexReference => "an index name or key pattern"

/-- What a method cannot do without. -/
inductive Requirement where
  | fieldName
  | document
  | documents
  | replacement
  | update
  | indexKeys
  | oneIndexKey
  | index
deriving DecidableEq, Repr

/-- The wording of a requirement. -/
def Requirement.description : Requirement → String
  | .fieldName => "a field name string"
  | .document => "a document"
  | .documents => "an array of documents"
  | .replacement => "a replacement document"
  | .update => "an update document"
  | .indexKeys => "an index key document"
  | .oneIndexKey => "at least one index key"
  | .index => "an index name or key pattern"

/-- What is wrong with the arguments of a call. -/
inductive ArgumentFault where
  /-- A given character should stand here. -/
  | expected (wanted : Char) (found : Option Char)
  | noValue
  | unexpectedCharacter (c : Char)
  | unexpectedInObject (c : Char)
  | unterminatedObject
  | unexpectedKey (c : Char)
  | unexpectedInArray (c : Char)
  | unterminatedArray
  | unterminatedString
  | badUnicodeEscape
  | badCodePoint
  | badNumber (text : String)
  | unterminatedRegex
  | badRegexFlag (c : Char)
  | unexpectedIdentifier (word : String)
  | badConstructor (name : String)
  | noDate
  | badDate (text : String)
  | badMilliseconds
  | trailingContent
  | notObject (kind : OperationKind) (argument : String)
  | notObjects (kind : OperationKind) (argument : String)
  | notArray (kind : OperationKind) (argument : String)
  | missing (kind : OperationKind) (what : Requirement)
  | badOption (kind : OperationKind) (key : String) (wanted : OptionType)
  | unknownOption (kind : OperationKind) (key : String)
  | badReturnDocument
  | badModifier (modifier : Modifier)
deriving DecidableEq, Repr

/-- The wording of an argument fault. -/
def ArgumentFault.message : ArgumentFault → String
  | .expected wanted none =>
    "expected '" ++ wanted.toString ++ "' but reached end of input"
  | .expected wanted (some found) =>
    "expected '" ++ wanted.toString ++ "', found '" ++ found.toString ++ "'"
  | .noValue => "expected a value"
  | .unexpectedCharacter c => "unexpected character '" ++ c.toString ++ "'"
  | .unexpectedInObject c => "expected ',' or '\x7d' in object, found '" ++ c.toString ++ "'"
  | .unterminatedObject => "unterminated object"
  | .unexpectedKey c => "expected object key, found '" ++ c.toString ++ "'"
  | .unexpectedInArray c => "expected ',' or ']' in array, found '" ++ c.toString ++ "'"
  | .unterminatedArray => "unterminated array"
  | .unterminatedString => "unterminated string literal"
  | .badUnicodeEscape => "invalid \\u escape"
  | .badCodePoint => "invalid unicode code point"
  | .badNumber text => "invalid number: " ++ text
  | .unterminatedRegex => "unterminated regular expression"
  | .badRegexFlag c => "unsupported regular expression flag '" ++ c.toString ++ "'"
  | .unexpectedIdentifier word => "unexpected identifier '" ++ word ++ "'"
  | .badConstructor name => "constructor '" ++ name ++ "' is not allowed, only Date"
  | .noDate => "expected a date string or milliseconds"
  | .badDate text => "invalid date '" ++ text ++ "'"
  | .badMilliseconds => "date milliseconds must be an integer"
  | .trailingContent => "unexpected trailing content"
  | .notObject kind argument => kind.name ++ " expects " ++ argument ++ " to be an object"
  | .notObjects kind argument =>
    kind.name ++ " expects " ++ argument ++ " to contain only objects"
  | .notArray kind argument => kind.name ++ " expects " ++ argument ++ " to be an array"
  | .missing kind what => kind.name ++ " requires " ++ what.description
  | .badOption kind key wanted =>
    kind.name ++ " option '" ++ key ++ "' must be " ++ wanted.description
  | .unknownOption kind key => "unsupported option '" ++ key ++ "' for " ++ kind.name
  | .badReturnDocument => "returnDocument must be \"before\" or \"after\""
  | .badModifier modifier => modifier.name ++ "() expects " ++ modifier.expects

/-! ## Malformed texts -/

/-- How a text fails to be a query. -/
inductive Malformation where
  | emptyQuery
  | unnamedCollection
  | badGetCollection
  | unknownShape
  /-- Text after a call that is neither a call nor a path step. -/
  | unexpectedText (shown : String)
  /-- A chained method without parentheses. -/
  | notCalled (method : String)
  | badIndex (text : String)
  | indexOutOfRange (digits : String)
deriving DecidableEq, Repr

/-- What a text is told to look like that has none of the shapes. -/
def expectedShapes : String :=
  "expected db.<collection>.<method>(...), db.getCollection(\"name\").<method>(...), " ++
    "db.runCommand(...), db.adminCommand(...) or db.currentOp(...)"

/-- The wording of a malformation. -/
def Malformation.message : Malformation → String
  | .emptyQuery => "query is empty"
  | .unnamedCollection => "getCollection requires a non-empty collection name"
  | .badGetCollection =>
    "invalid getCollection format, expected db.getCollection(\"name\").<method>(...)"
  | .unknownShape => expectedShapes
  | .unexpectedText shown => "unexpected text after call: '" ++ shown ++ "'"
  | .notCalled method => "expected '(' after chained method '" ++ method ++ "'"
  | .badIndex text => "expected an array index in '" ++ text ++ "'"
  | .indexOutOfRange digits => "array index out of range: " ++ digits

/-! ## Errors -/

/-- The groups of errors that results and logs name. -/
inductive ErrorKind where
  | malformedQuery
  | unbalancedDelimiters
  | argumentParse
  | unsupportedOperation
  | targetUnavailable
  | storeExecution
deriving DecidableEq, Repr

/-- The name of a group of errors. -/
def ErrorKind.name : ErrorKind → String
  | .malformedQuery => "MalformedQuery"
  | .unbalancedDelimiters => "UnbalancedDelimiters"
  | .argumentParse => "ArgumentParseError"
  | .unsupportedOperation => "UnsupportedOperation"
  | .targetUnavailable => "TargetUnavailable"
  | .storeExecution => "StoreExecutionError"

/-- Why a query text is rejected. -/
inductive QueryError where
  | malformed (cause : Malformation)
  /-- A call that is never closed, by the byte offset of its opening parenthesis. -/
  | unbalanced (openAt : Nat)
  /-- A fault in arguments, with the text it was found at. -/
  | argument (fragment : String) (fault : ArgumentFault)
  | unsupported (method : String)
deriving DecidableEq, Repr

namespace QueryError

/-- The group that an error belongs to. -/
def kind : QueryError → ErrorKind
  | .malformed _ => .malformedQuery
  | .unbalanced _ => .unbalancedDelimiters
  | .argument _ _ => .argumentParse
  | .unsupported _ => .unsupportedOperation

/-- The message of an error. -/
def message : QueryError → String
  | .malformed cause => "Malformed query: " ++ cause.message
  | .unbalanced openAt =>
    "Unbalanced delimiters: no closing parenthesis for call opened at offset " ++ toString openAt
  | .argument fragment fault =>
    "Failed to parse query arguments at \x60" ++ fragment ++ "\x60: " ++ fault.message
  | .unsupported method => "Unsupported method: " ++ method

end QueryError

end ShellQuery
