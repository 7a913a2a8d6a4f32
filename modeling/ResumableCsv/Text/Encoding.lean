import ResumableCsv.Text.Basic
import ResumableCsv.Text.Utf8

/-!
Character encodings: the labels that name them, and the text that some bytes stand for. Bytes that
an encoding gives no meaning to make decoding fail; nothing is replaced. The tables of the older
character sets are not part of this library, so these sets are parameters.
-/

namespace ResumableCsv

/-- A character set with a decoder from elsewhere. It never makes up a NUL: where there is none in
the bytes, there is none in the text. -/
structure Charset where
  decode : Bytes → Option String
  nulFree : ∀ content text, decode content = some text → (∀ byte ∈ content, byte ≠ 0) →
    '\x00' ∉ text.toList

namespace Charset

theorem ofNat_byte_ne_nul {byte : UInt8} (nonzero : byte ≠ 0) :
    Char.ofNat byte.toNat ≠ '\x00' := by
  intro same
  have bound := byte.toNat_lt
  have valid : byte.toNat.isValidChar := .inl (by omega)
  have number := congrArg Char.toNat same
  rw [Char.ofNat, dif_pos valid] at number
  exact nonzero (UInt8.toNat_inj.mp number)

/-- The part that the older character sets share, without the bytes that switch between sets. -/
def shared : Charset where
  decode content :=
    if content.all fun byte => byte < 0x80 && byte ≠ 0x0E && byte ≠ 0x0F && byte ≠ 0x1B then
      some (String.ofList (content.map fun byte => Char.ofNat byte.toNat))
    else none
  nulFree content text decoded nonzero := by
    split at decoded <;> cases decoded
    rw [String.toList_ofList]
    intro member
    obtain ⟨byte, found, same⟩ := List.mem_map.mp member
    exact ofNat_byte_ne_nul (nonzero byte found) same

end Charset

/-- How bytes become characters. -/
inductive Encoding.Scheme
  | utf8
  | windows1252
  | utf16 (bigEndian : Bool)
  | userDefined
  | replacement
  | charset (charset : Charset)

structure Encoding where
  name : String
  scheme : Encoding.Scheme

namespace Encoding

def utf8 : Encoding := ⟨"UTF-8", .utf8⟩

/-- The encodings with their labels; `charsets` gives the character sets by name. -/
def labels (charsets : String → Charset) : List (Encoding × List String) :=
  [
  (⟨"UTF-8", .utf8⟩,
    ["unicode-1-1-utf-8", "unicode11utf8", "unicode20utf8", "utf-8", "utf8", "x-unicode20utf8"]),
  (⟨"IBM866", .charset (charsets "IBM866")⟩,
    ["866", "cp866", "csibm866", "ibm866"]),
  (⟨"ISO-8859-2", .charset (charsets "ISO-8859-2")⟩,
    ["csisolatin2", "iso-8859-2", "iso-ir-101", "iso8859-2", "iso88592", "iso_8859-2",
     "iso_8859-2:1987", "l2", "latin2"]),
  (⟨"ISO-8859-3", .charset (charsets "ISO-8859-3")⟩,
    ["csisolatin3", "iso-8859-3", "iso-ir-109", "iso8859-3", "iso88593", "iso_8859-3",
     "iso_8859-3:1988", "l3", "latin3"]),
  (⟨"ISO-8859-4", .charset (charsets "ISO-8859-4")⟩,
    ["csisolatin4", "iso-8859-4", "iso-ir-110", "iso8859-4", "iso88594", "iso_8859-4",
     "iso_8859-4:1988", "l4", "latin4"]),
  (⟨"ISO-8859-5", .charset (charsets "ISO-8859-5")⟩,
    ["csisolatincyrillic", "cyrillic", "iso-8859-5", "iso-ir-144", "iso8859-5", "iso88595",
     "iso_8859-5", "iso_8859-5:1988"]),
  (⟨"ISO-8859-6", .charset (charsets "ISO-8859-6")⟩,
    ["arabic", "asmo-708", "csiso88596e", "csiso88596i", "csisolatinarabic", "ecma-114",
     "iso-8859-6", "iso-8859-6-e", "iso-8859-6-i", "iso-ir-127", "iso8859-6", "iso88596",
     "iso_8859-6", "iso_8859-6:1987"]),
  (⟨"ISO-8859-7", .charset (charsets "ISO-8859-7")⟩,
    ["csisolatingreek", "ecma-118", "elot_928", "greek", "greek8", "iso-8859-7", "iso-ir-126",
     "iso8859-7", "iso88597", "iso_8859-7", "iso_8859-7:1987", "sun_eu_greek"]),
  (⟨"ISO-8859-8", .charset (charsets "ISO-8859-8")⟩,
    ["csiso88598e", "csisolatinhebrew", "hebrew", "iso-8859-8", "iso-8859-8-e", "iso-ir-138",
     "iso8859-8", "iso88598", "iso_8859-8", "iso_8859-8:1988", "visual"]),
  (⟨"ISO-8859-8-I", .charset (charsets "ISO-8859-8-I")⟩,
    ["csiso88598i", "iso-8859-8-i", "logical"]),
  (⟨"ISO-8859-10", .charset (charsets "ISO-8859-10")⟩,
    ["csisolatin6", "iso-8859-10", "iso-ir-157", "iso8859-10", "iso885910", "l6", "latin6"]),
  (⟨"ISO-8859-13", .charset (charsets "ISO-8859-13")⟩,
    ["iso-8859-13", "iso8859-13", "iso885913"]),
  (⟨"ISO-8859-14", .charset (charsets "ISO-8859-14")⟩,
    ["iso-8859-14", "iso8859-14", "iso885914"]),
  (⟨"ISO-8859-15", .charset (charsets "ISO-8859-15")⟩,
    ["csisolatin9", "iso-8859-15", "iso8859-15", "iso885915", "iso_8859-15", "l9"]),
  (⟨"ISO-8859-16", .charset (charsets "ISO-8859-16")⟩,
    ["iso-8859-16"]),
  (⟨"KOI8-R", .charset (charsets "KOI8-R")⟩,
    ["cskoi8r", "koi", "koi8", "koi8-r", "koi8_r"]),
  (⟨"KOI8-U", .charset (charsets "KOI8-U")⟩,
    ["koi8-ru", "koi8-u"]),
  (⟨"macintosh", .charset (charsets "macintosh")⟩,
    ["csmacintosh", "mac", "macintosh", "x-mac-roman"]),
  (⟨"windows-874", .charset (charsets "windows-874")⟩,
    ["dos-874", "iso-8859-11", "iso8859-11", "iso885911", "tis-620", "windows-874"]),
  (⟨"windows-1250", .charset (charsets "windows-1250")⟩,
    ["cp1250", "windows-1250", "x-cp1250"]),
  (⟨"windows-1251", .charset (charsets "windows-1251")⟩,
    ["cp1251", "windows-1251", "x-cp1251"]),
  (⟨"windows-1252", .windows1252⟩,
    ["ansi_x3.4-1968", "ascii", "cp1252", "cp819", "csisolatin1", "ibm819", "iso-8859-1",
     "iso-ir-100", "iso8859-1", "iso88591", "iso_8859-1", "iso_8859-1:1987", "l1", "latin1",
     "us-ascii", "windows-1252", "x-cp1252"]),
  (⟨"windows-1253", .charset (charsets "windows-1253")⟩,
    ["cp1253", "windows-1253", "x-cp1253"]),
  (⟨"windows-1254", .charset (charsets "windows-1254")⟩,
    ["cp1254", "csisolatin5", "iso-8859-9", "iso-ir-148", "iso8859-9", "iso88599", "iso_8859-9",
     "iso_8859-9:1989", "l5", "latin5", "windows-1254", "x-cp1254"]),
  (⟨"windows-1255", .charset (charsets "windows-1255")⟩,
    ["cp1255", "windows-1255", "x-cp1255"]),
  (⟨"windows-1256", .charset (charsets "windows-1256")⟩,
    ["cp1256", "windows-1256", "x-cp1256"]),
  (⟨"windows-1257", .charset (charsets "windows-1257")⟩,
    ["cp1257", "windows-1257", "x-cp1257"]),
  (⟨"windows-1258", .charset (charsets "windows-1258")⟩,
    ["cp1258", "windows-1258", "x-cp1258"]),
  (⟨"x-mac-cyrillic", .charset (charsets "x-mac-cyrillic")⟩,
    ["x-mac-cyrillic", "x-mac-ukrainian"]),
  (⟨"GBK", .charset (charsets "GBK")⟩,
    ["chinese", "csgb2312", "csiso58gb231280", "gb2312", "gb_2312", "gb_2312-80", "gbk",
     "iso-ir-58", "x-gbk"]),
  (⟨"gb18030", .charset (charsets "gb18030")⟩,
    ["gb18030"]),
  (⟨"Big5", .charset (charsets "Big5")⟩,
    ["big5", "big5-hkscs", "cn-big5", "csbig5", "x-x-big5"]),
  (⟨"EUC-JP", .charset (charsets "EUC-JP")⟩,
    ["cseucpkdfmtjapanese", "euc-jp", "x-euc-jp"]),
  (⟨"ISO-2022-JP", .charset (charsets "ISO-2022-JP")⟩,
    ["csiso2022jp", "iso-2022-jp"]),
  (⟨"Shift_JIS", .charset (charsets "Shift_JIS")⟩,
    ["csshiftjis", "ms932", "ms_kanji", "shift-jis", "shift_jis", "sjis", "windows-31j",
     "x-sjis"]),
  (⟨"EUC-KR", .charset (charsets "EUC-KR")⟩,
    ["cseuckr", "csksc56011987", "euc-kr", "iso-ir-149", "korean", "ks_c_5601-1987",
     "ks_c_5601-1989", "ksc5601", "ksc_5601", "windows-949"]),
  (⟨"replacement", .replacement⟩,
    ["csiso2022kr", "hz-gb-2312", "iso-2022-cn", "iso-2022-cn-ext", "iso-2022-kr", "replacement"]),
  (⟨"UTF-16BE", .utf16 true⟩,
    ["unicodefffe", "utf-16be"]),
  (⟨"UTF-16LE", .utf16 false⟩,
    ["csunicode", "iso-10646-ucs-2", "ucs-2", "unicode", "unicodefeff", "utf-16", "utf-16le"]),
  (⟨"x-user-defined", .userDefined⟩,
    ["x-user-defined"])
  ]

/-- Finds the encoding a label names, whatever its case and surrounding blanks. -/
def ofLabel? (charsets : String → Charset) (label : String) : Option Encoding :=
  let key := String.ofList ((Text.trim label.toList).map Text.asciiLower)
  ((labels charsets).find? fun (_, names) => names.contains key).map Prod.fst

/-- The characters of bytes 128 to 159, where this encoding differs from Latin-1. -/
def windowsUpper : List Nat :=
  [0x20AC, 0x81, 0x201A, 0x0192, 0x201E, 0x2026, 0x2020, 0x2021, 0x02C6, 0x2030, 0x0160, 0x2039,
   0x0152, 0x8D, 0x017D, 0x8F, 0x90, 0x2018, 0x2019, 0x201C, 0x201D, 0x2022, 0x2013, 0x2014,
   0x02DC, 0x2122, 0x0161, 0x203A, 0x0153, 0x9D, 0x017E, 0x0178]

def windowsChar (byte : UInt8) : Char :=
  let n := byte.toNat
  if 0x80 ≤ n && n ≤ 0x9F then Char.ofNat ((windowsUpper[n - 0x80]?).getD n) else Char.ofNat n

def userDefinedChar (byte : UInt8) : Char :=
  if byte.toNat < 0x80 then Char.ofNat byte.toNat else Char.ofNat (0xF780 + (byte.toNat - 0x80))

def units16 (bigEndian : Bool) : Bytes → Option (List Nat)
  | [] => some []
  | [_] => none
  | first :: second :: rest =>
    let unit :=
      if bigEndian then 256 * first.toNat + second.toNat else first.toNat + 256 * second.toNat
    (units16 bigEndian rest).map (unit :: ·)

def isHighSurrogate (unit : Nat) : Bool := 0xD800 ≤ unit && unit ≤ 0xDBFF

def isLowSurrogate (unit : Nat) : Bool := 0xDC00 ≤ unit && unit ≤ 0xDFFF

def charsOfUnits : List Nat → Option (List Char)
  | [] => some []
  | [unit] =>
    if isHighSurrogate unit || isLowSurrogate unit then none else some [Char.ofNat unit]
  | unit :: next :: rest =>
    if isHighSurrogate unit then
      if isLowSurrogate next then
        (charsOfUnits rest).map
          (Char.ofNat (0x10000 + 0x400 * (unit - 0xD800) + (next - 0xDC00)) :: ·)
      else none
    else if isLowSurrogate unit then none
    else (charsOfUnits (next :: rest)).map (Char.ofNat unit :: ·)

def decode? (encoding : Encoding) (content : Bytes) : Option String :=
  match encoding.scheme with
  | .utf8 => Text.ofBytes? content
  | .windows1252 => some (String.ofList (content.map windowsChar))
  | .utf16 bigEndian => (units16 bigEndian content).bind charsOfUnits |>.map String.ofList
  | .userDefined => some (String.ofList (content.map userDefinedChar))
  | .replacement => if content.isEmpty then some "" else none
  | .charset charset => charset.decode content

end Encoding

end ResumableCsv
