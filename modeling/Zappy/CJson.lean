import Zappy.Reception
import Zappy.Lib.JsonText

/-!
# JSON (`cJSON.c`)

What the server uses of cJSON: `cJSON_Parse`, the two ways of printing, and the lookup of a member by its name.  The
text is a C string, so it has no zero, and the terminating zero counts as a blank for the parser: the empty list
stands for the place of that zero.  Allocation does not fail, and texts are shorter than `INT_MAX` bytes.
-/

namespace Zappy.CJson

open JsonText Reception

/-- What cJSON uses of the C library's arithmetic of `double`. -/
structure CDouble (D : Type*) where
  /-- Neither `isnan` nor `isinf`. -/
  isFinite : D → Bool
  /-- `valueint`: the value as an `int`, with saturation. -/
  toInt : D → Int
  ofInt : Int → D
  /-- `==`. -/
  eq : D → D → Bool
  /-- `compare_double`. -/
  compareDouble : D → D → Bool
  /-- `sprintf` with the format `"%1.<n>g"`. -/
  sprintf : Nat → D → List UInt8
  /-- `sscanf` with the format `"%lg"`. -/
  sscanf : List UInt8 → Option D
  /-- The number at the beginning of the text, and how many bytes it takes. -/
  strtod : List UInt8 → Option (D × Nat)

variable {D : Type*} (lib : CDouble D)

/-! ### Strings -/

/-- `parse_hex4`, of four bytes. -/
def parseHex4 (input : List UInt8) : Nat :=
  match input.mapM hexValue with
  | some ns => ns.foldl (fun h d => (h <<< 4) + d) 0
  | none => 0

/-- The loop of `utf16_literal_to_utf8` that encodes, from the byte at `position` down. -/
def encode (mark : Nat) : Nat → Nat → List UInt8 → List UInt8
  | 0, codepoint, out => UInt8.ofNat ((codepoint ||| mark) &&& 0xFF) :: out
  | position + 1, codepoint, out =>
    encode mark position (codepoint >>> 6) (UInt8.ofNat ((codepoint ||| 0x80) &&& 0xBF) :: out)

/-- The second half of `utf16_literal_to_utf8`. -/
def encodeUtf8 (codepoint : Nat) : Option (List UInt8) :=
  if codepoint < 0x80 then some [UInt8.ofNat (codepoint &&& 0x7F)]
  else if codepoint < 0x800 then some (encode 0xC0 1 codepoint [])
  else if codepoint < 0x10000 then some (encode 0xE0 2 codepoint [])
  else if codepoint ≤ 0x10FFFF then some (encode 0xF0 3 codepoint [])
  else none

/-- `utf16_literal_to_utf8`, of what is left of the string: the bytes, and the length of the literal. -/
def utf16LiteralToUtf8 (input : List UInt8) : Option (List UInt8 × Nat) :=
  if input.length < 6 then none
  else
    let firstCode := parseHex4 ((input.drop 2).take 4)
    if 0xDC00 ≤ firstCode ∧ firstCode ≤ 0xDFFF then none
    else if 0xD800 ≤ firstCode ∧ firstCode ≤ 0xDBFF then
      let second := input.drop 6
      if second.length < 6 then none
      else if second.take 2 ≠ [backslash, 0x75] then none
      else
        let secondCode := parseHex4 ((second.drop 2).take 4)
        if secondCode < 0xDC00 ∨ 0xDFFF < secondCode then none
        else (encodeUtf8 (0x10000 + (((firstCode &&& 0x3FF) <<< 10) ||| (secondCode &&& 0x3FF)))).map (·, 12)
    else (encodeUtf8 firstCode).map (·, 6)

/-- The first loop of `parse_string`: the bytes in front of the closing quote, and those behind it. -/
def closing : List UInt8 → Option (List UInt8 × List UInt8)
  | [] => none
  | [b] => if b = quote then some ([], []) else none
  | b :: c :: rest =>
    if b = quote then some ([], c :: rest)
    else if b = backslash then (closing rest).map fun r => (b :: c :: r.1, r.2)
    else (closing (c :: rest)).map fun r => (b :: r.1, r.2)

/-- The second loop of `parse_string`, with a turn for each byte at most. -/
def unescape : Nat → List UInt8 → Option (List UInt8)
  | _, [] => some []
  | 0, _ :: _ => none
  | n + 1, b :: rest =>
    if b ≠ backslash then (unescape n rest).map (b :: ·)
    else match rest with
      -- behind the last byte stands the closing quote
      | [] => some [quote]
      | e :: rest' =>
        if e = 0x75 then
          (utf16LiteralToUtf8 (b :: rest)).bind fun r => (unescape n ((b :: rest).drop r.2)).map (r.1 ++ ·)
        else (shortEscape e).bind fun c => (unescape n rest').map (c :: ·)

/-- `parse_string`.  Its output is a C string. -/
def parseString : List UInt8 → Option (List UInt8 × List UInt8)
  | [] => none
  | b :: rest =>
    if b ≠ quote then none
    else (closing rest).bind fun r => (unescape r.1.length r.1).map fun output => (cString output, r.2)

/-- The two digits of `"u%04x"` that are not zero. -/
def hexDigit (n : Nat) : UInt8 := if n < 10 then UInt8.ofNat (n + 0x30) else UInt8.ofNat (n - 10 + 0x61)

/-- One turn of the loop of `print_string_ptr` that copies. -/
def escape (b : UInt8) : List UInt8 :=
  if 31 < b ∧ b ≠ quote ∧ b ≠ backslash then [b]
  else if b = backslash then [backslash, backslash]
  else if b = quote then [backslash, quote]
  else if b = 0x08 then [backslash, 0x62]
  else if b = 0x0C then [backslash, 0x66]
  else if b = 0x0A then [backslash, 0x6E]
  else if b = 0x0D then [backslash, 0x72]
  else if b = 0x09 then [backslash, 0x74]
  else [backslash, 0x75, 0x30, 0x30, hexDigit (b.toNat / 16), hexDigit (b.toNat % 16)]

/-- One turn of the loop of `print_string_ptr` that counts the additional characters. -/
def escapeCharacter (b : UInt8) : Nat :=
  if b = quote ∨ b = backslash ∨ b = 0x08 ∨ b = 0x0C ∨ b = 0x0A ∨ b = 0x0D ∨ b = 0x09 then 1
  else if b < 32 then 5
  else 0

/-- `escape_characters`. -/
def escapeCharacters (s : List UInt8) : Nat := (s.map escapeCharacter).sum

/-- `print_string_ptr`.  The closing quote is put where the count says. -/
def printStringPtr (s : List UInt8) : List UInt8 :=
  let outputLength := s.length + escapeCharacters s
  if escapeCharacters s = 0 then quote :: (s ++ [quote])
  else quote :: ((s.flatMap escape).take outputLength ++ [quote])

/-! ### Numbers -/

/-- `parse_number`. -/
def parseNumber (text : List UInt8) : Option (Value D × List UInt8) :=
  (lib.strtod ((text.take 63).takeWhile isNumberChar)).map fun r => (.number r.1, text.drop r.2)

/-- `sprintf` with the format `"%d"`. -/
def decimal (n : Int) : List UInt8 := ascii (toString n).toList

/-- `print_number`. -/
def printNumber (d : D) : Option (List UInt8) :=
  let text :=
    if !lib.isFinite d then nullText
    else if lib.eq d (lib.ofInt (lib.toInt d)) then decimal (lib.toInt d)
    else match lib.sscanf (lib.sprintf 15 d) with
      | some test => if lib.compareDouble test d then lib.sprintf 15 d else lib.sprintf 17 d
      | none => lib.sprintf 17 d
  if 25 < text.length then none else some text

/-! ### Parsing -/

/-- `buffer_skip_whitespace`. -/
def skipWhitespace (text : List UInt8) : List UInt8 := text.dropWhile (· ≤ 32)

/-- The loops of `parse_array` and `parse_object`, from the byte behind the bracket or the comma, with a turn for
each byte at most. -/
def elements {α : Type*} (parse : List UInt8 → Option (α × List UInt8)) (close : UInt8) :
    Nat → List UInt8 → Option (List α × List UInt8)
  | 0, _ => none
  | n + 1, text => (parse (skipWhitespace text)).bind fun r =>
    match skipWhitespace r.2 with
    | [] => none
    | b :: rest =>
      if b = comma then (elements parse close n rest).map fun r' => (r.1 :: r'.1, r'.2)
      else if b = close then some ([r.1], rest)
      else none

/-- What stands between the brackets. -/
def enclosed {α : Type*} (parse : List UInt8 → Option (α × List UInt8)) (close : UInt8) (text : List UInt8) :
    Option (List α × List UInt8) :=
  if (skipWhitespace text).head? = some close then some ([], (skipWhitespace text).tail)
  else elements parse close text.length text

/-- `parse_array`, behind the bracket. -/
def parseArray (parseValue : List UInt8 → Option (Value D × List UInt8)) (text : List UInt8) :
    Option (Value D × List UInt8) :=
  (enclosed parseValue 0x5D text).map fun r => (.array r.1, r.2)

/-- One member of an object. -/
def parseMember (parseValue : List UInt8 → Option (Value D × List UInt8)) (text : List UInt8) :
    Option ((List UInt8 × Value D) × List UInt8) :=
  (parseString text).bind fun key =>
    match skipWhitespace key.2 with
    | [] => none
    | b :: rest =>
      if b = colon then (parseValue (skipWhitespace rest)).map fun r => ((key.1, r.1), r.2) else none

/-- `parse_object`, behind the brace. -/
def parseObject (parseValue : List UInt8 → Option (Value D × List UInt8)) (text : List UInt8) :
    Option (Value D × List UInt8) :=
  (enclosed (parseMember parseValue) 0x7D text).map fun r => (.object r.1, r.2)

/-- `parse_value`, where arrays and objects may be nested `levels` deep. -/
def parseValue (levels : Nat) (text : List UInt8) : Option (Value D × List UInt8) :=
  if nullText.isPrefixOf text then some (.null, text.drop 4)
  else if (boolText false).isPrefixOf text then some (.bool false, text.drop 5)
  else if (boolText true).isPrefixOf text then some (.bool true, text.drop 4)
  else match text with
    | [] => none
    | b :: rest =>
      if b = quote then (parseString text).map fun r => (.string r.1, r.2)
      else if b = 0x2D ∨ (0x30 ≤ b ∧ b ≤ 0x39) then parseNumber lib text
      else match levels with
        | 0 => none
        | levels + 1 =>
          if b = 0x5B then parseArray (parseValue levels) rest
          else if b = 0x7B then parseObject (parseValue levels) rest
          else none

/-- `CJSON_NESTING_LIMIT`. -/
def nestingLimit : Nat := 1000

/-- `skip_utf8_bom`. -/
def skipUtf8Bom (text : List UInt8) : List UInt8 :=
  if 4 ≤ text.length ∧ [0xEF, 0xBB, 0xBF].isPrefixOf text then text.drop 3 else text

/-- `cJSON_Parse`.  What comes behind the value does not matter. -/
def cJSONParse (text : List UInt8) : Option (Value D) :=
  (parseValue lib nestingLimit (skipWhitespace (skipUtf8Bom text))).map Prod.fst

/-! ### Printing -/

/-- The tabulators of a formatted line. -/
def tabs (format : Bool) (depth : Nat) : List UInt8 := if format then List.replicate depth 0x09 else []

def newline (format : Bool) : List UInt8 := if format then [0x0A] else []

mutual

/-- `print_value`, at a depth that only the layout depends on. -/
def printValue (format : Bool) (depth : Nat) : Value D → Option (List UInt8)
  | .null => some nullText
  | .bool b => some (boolText b)
  | .number d => printNumber lib d
  | .string s => some (printStringPtr s)
  | .array items => (printArray format (depth + 1) items).map fun t => 0x5B :: (t ++ [0x5D])
  | .object members => (printObject format (depth + 1) members).map fun t =>
      0x7B :: (newline format ++ (t ++ (tabs format depth ++ [0x7D])))

/-- The loop of `print_array`. -/
def printArray (format : Bool) (depth : Nat) : List (Value D) → Option (List UInt8)
  | [] => some []
  | v :: vs => (printValue format depth v).bind fun t => (printArray format depth vs).map fun ts =>
      t ++ ((if vs.isEmpty then [] else comma :: (if format then [0x20] else [])) ++ ts)

/-- The loop of `print_object`. -/
def printObject (format : Bool) (depth : Nat) : List (List UInt8 × Value D) → Option (List UInt8)
  | [] => some []
  | (k, v) :: ms => (printValue format depth v).bind fun t => (printObject format depth ms).map fun ts =>
      tabs format depth ++ (printStringPtr k ++ (colon :: ((if format then [0x09] else []) ++
        (t ++ ((if ms.isEmpty then [] else [comma]) ++ (newline format ++ ts))))))

end

/-- `cJSON_Print`. -/
def cJSONPrint (v : Value D) : Option (List UInt8) := printValue lib true 0 v

/-- `cJSON_PrintUnformatted`. -/
def cJSONPrintUnformatted (v : Value D) : Option (List UInt8) := printValue lib false 0 v

/-! ### Lookup -/

def toLower (b : UInt8) : UInt8 := if 0x41 ≤ b ∧ b ≤ 0x5A then b + 0x20 else b

/-- `cJSON_GetObjectItem`: the first member whose name is `name` up to case. -/
def cJSONGetObjectItem (v : Value D) (name : List UInt8) : Option (Value D) :=
  match v with
  | .object members => (members.find? fun m => name.map toLower = m.1.map toLower).map Prod.snd
  | _ => none

/-- `valuestring` of an item that `cJSON_IsString` accepts. -/
def stringOf : Value D → Option (List UInt8)
  | .string s => some s
  | _ => none

end Zappy.CJson
