import Attest.Json.Number
import Attest.Text.Quoted

/-!
Why a text is not the document that was asked for: it ends too early, it breaks the grammar, or it
holds something else than the reader wants. Each cause has one wording and belongs to one category.
-/

namespace Attest.Json

/-- What stands where something else was wanted. -/
inductive Found
  | null
  | bool (value : Bool)
  | number (value : Number)
  | string (value : String)
  | array
  | object
  deriving DecidableEq

namespace Found

def phrase : Found → String
  | .null => "null"
  | .bool value => "boolean `" ++ (if value then "true" else "false") ++ "`"
  | .number (.integer value h) => "integer `" ++ String.ofList (Number.integer value h).text ++ "`"
  | .number (.double value) => "floating point `" ++ String.ofList value.documentText ++ "`"
  | .string value => "string " ++ Text.quoted value
  | .array => "sequence"
  | .object => "map"

end Found

/-- Why a text or value could not be read. -/
inductive Error
  -- The text ends too early.
  | cutValue
  | cutArray
  | cutObject
  | cutString
  -- The text breaks the grammar.
  | expectedValue
  | expectedLiteral
  | expectedColon
  | expectedItemEnd
  | expectedMemberEnd
  | nameNotString
  | trailingComma
  | trailingCharacters
  | invalidNumber
  | numberOutOfRange
  | invalidEscape
  | loneSurrogate
  | unfinishedPair
  | controlCharacter
  | invalidCodePoint
  | tooDeep
  -- The text holds something else than was wanted.
  | wrongType (found : Found) (wanted : String)
  | wrongValue (found : Found) (wanted : String)
  | missingMember (name : String)
  | repeatedMember (name : String)
  | tooFewItems (count : Nat) (wanted : String)
  | noAlternative (wanted : String)
  | refused (reason : String)
  deriving DecidableEq

/-- The kinds of reading errors. -/
inductive Category
  | cut
  | grammar
  | content
  deriving DecidableEq

namespace Error

def category : Error → Category
  | .cutValue | .cutArray | .cutObject | .cutString => .cut
  | .wrongType _ _ | .wrongValue _ _ | .missingMember _ | .repeatedMember _
  | .tooFewItems _ _ | .noAlternative _ | .refused _ => .content
  | _ => .grammar

def message : Error → String
  | .cutValue => "EOF while parsing a value"
  | .cutArray => "EOF while parsing a list"
  | .cutObject => "EOF while parsing an object"
  | .cutString => "EOF while parsing a string"
  | .expectedValue => "expected value"
  | .expectedLiteral => "expected ident"
  | .expectedColon => "expected `:`"
  | .expectedItemEnd => "expected `,` or `]`"
  | .expectedMemberEnd => "expected `,` or `\x7d`"
  | .nameNotString => "key must be a string"
  | .trailingComma => "trailing comma"
  | .trailingCharacters => "trailing characters"
  | .invalidNumber => "invalid number"
  | .numberOutOfRange => "number out of range"
  | .invalidEscape => "invalid escape"
  | .loneSurrogate => "lone leading surrogate in hex escape"
  | .unfinishedPair => "unexpected end of hex escape"
  | .controlCharacter => "control character (\\u0000-\\u001F) found while parsing a string"
  | .invalidCodePoint => "invalid unicode code point"
  | .tooDeep => "recursion limit exceeded"
  | .wrongType found wanted => "invalid type: " ++ found.phrase ++ ", expected " ++ wanted
  | .wrongValue found wanted => "invalid value: " ++ found.phrase ++ ", expected " ++ wanted
  | .missingMember name => "missing field `" ++ name ++ "`"
  | .repeatedMember name => "duplicate field `" ++ name ++ "`"
  | .tooFewItems count wanted => "invalid length " ++ toString count ++ ", expected " ++ wanted
  | .noAlternative wanted => "data did not match any variant of untagged enum " ++ wanted
  | .refused reason => reason

end Error

end Attest.Json
