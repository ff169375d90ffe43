import Http1.Header

/-!
What can be wrong with the bytes of a request. Each of these ends the connection.
-/

namespace Http1

inductive ParseError where
  | expectingEmptyLine
  | illegalFormat
  | illegalMethod
  | illegalTarget
  | illegalVersion
  | illegalHeader (why : HeaderError)
  deriving DecidableEq, Repr

def ParseError.message : ParseError → Text
  | expectingEmptyLine => "expecting empty line".toList
  | illegalFormat => "illegal format".toList
  | illegalMethod => "illegal method".toList
  | illegalTarget => "illegal uri".toList
  | illegalVersion => "illegal protocol".toList
  | illegalHeader why => "illegal header: ".toList ++ why.message

end Http1
