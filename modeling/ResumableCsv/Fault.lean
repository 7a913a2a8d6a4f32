/-!
What can go wrong while bytes are moved between a file and memory.
-/

namespace ResumableCsv

inductive IoFault
  | notFound
  | isDirectory
  | invalidGzipHeader
  | corruptDeflate
  | checksumMismatch
  | unexpectedEnd
deriving DecidableEq, Repr

def IoFault.message : IoFault → String
  | .notFound => "No such file or directory (os error 2)"
  | .isDirectory => "Is a directory (os error 21)"
  | .invalidGzipHeader => "invalid gzip header"
  | .corruptDeflate => "corrupt deflate stream"
  | .checksumMismatch => "corrupt gzip stream does not have a matching checksum"
  | .unexpectedEnd => "unexpected end of file"

end ResumableCsv
