import Websocksy.Client
import Websocksy.Lib.BigEndian

/-!
# The framing functions

`framing_binary`, `framing_separator` and `framing_newline` of `builtins.c`, and those of
the plugins `framing_fixedlength.c` and `framing_dynamic32.c`; `framing_auto` stands with
`client_connect`.  What a function stores in the framing data is its parsed configuration.

A call that does not come back is `none`: a NULL configuration string is read, the option loop
of `framing_dynamic32` does not end, or its size field is read far behind the buffer.
-/

namespace Websocksy

open Buffer CString

variable {φ : Type}

/-- A framing function of which some calls do not come back. -/
abbrev WsFraming? (φ : Type) :=
  Option Bytes → Nat → Nat → Option WsOperation → Option φ → Option Bytes →
    Option (Int × Option WsOperation × Option φ)

/-- Such a function for `ws_peer_data`.  Where a call does not come back, neither does
`ws_peer_data`: for a negative value that leaves all as it was, its loop makes the same call for
ever. -/
def WsFraming?.total (f : WsFraming? φ) : WsFraming φ :=
  fun data length lastRead opcode framingData config =>
    (f data length lastRead opcode framingData config).getD (-1, opcode, framingData)

def framingBinary : WsFraming φ := fun _ length _ opcode framingData _ =>
  (length, opcode, framingData)

/-! ## `separator` -/

/-- The byte that a backslash and `c` stand for; any other letter is skipped. -/
def separatorEscape (c : UInt8) : UInt8 :=
  if c = 48 then 0 -- '0'
  else if c = 116 then 9 -- 't'
  else if c = 110 then 10 -- 'n'
  else if c = 102 then 12 -- 'f'
  else if c = 114 then 13 -- 'r'
  else 92

/-- `sscanf(s, "%02x", &hex)` on a string that starts with a hexadecimal digit. -/
def scanHex (s : Bytes) : UInt8 := (numberValue 16 (s.take 2)).toUInt8

/-- The configuration loop of `framing_separator`; `none` for an incomplete `\x`. -/
def separatorParse : Bytes → Option Bytes
  | [] => some []
  | c :: s =>
    if c = 92 then
      match s with
      | [] => some [0]
      | e :: s =>
        if e = 120 then
          match s with
          | a :: b :: s =>
            if isxdigit a && isxdigit b then
              -- the number is read from its second digit on
              (separatorParse s).map (scanHex (b :: s) :: ·)
            else none
          | _ => none
        else (separatorParse s).map (separatorEscape e :: ·)
    else (separatorParse s).map (c :: ·)

/-- The search loop, from the index `i` on, where `left` bytes are left. -/
def separatorSearch (separator data : Bytes) : Nat → Nat → Option Nat
  | 0, _ => none
  | left + 1, i =>
    if left + 1 < separator.length then none
    else if slice data i separator.length = separator then some (i + separator.length)
    else separatorSearch separator data left (i + 1)

/-- `framing_separator` once it has its separator. -/
def separatorFrame (separator data : Bytes) (length lastRead : Nat) : Int :=
  if separator.length = 0 then length
  else (separatorSearch separator data lastRead (length - lastRead)).getD 0

def framingSeparator : WsFraming? Bytes := fun data length lastRead opcode framingData config =>
  match data, framingData with
  | some data, none =>
    config.map fun config =>
      match separatorParse (cstr config) with
      | none => (-1, opcode, none)
      | some separator =>
        (separatorFrame separator data length lastRead, opcode, some separator)
  | some data, some separator =>
    some (separatorFrame separator data length lastRead, opcode, some separator)
  | none, some separator => some (0, opcode, some separator)
  | none, none => some (length, opcode, none)

/-! ## `newline` -/

def newlineExpression (config : Bytes) : Bytes :=
  if cstr config = ascii "lfcr" then ascii "\\n\\r"
  else if cstr config = ascii "lf" then ascii "\\n"
  else if cstr config = ascii "cr" then ascii "\\r"
  else ascii "\\r\\n" -- also for "crlf"

def framingNewline : WsFraming? Bytes := fun data length lastRead opcode framingData config =>
  let separated :=
    if data.isSome ∧ framingData.isNone then
      config.bind fun config =>
        framingSeparator data length lastRead opcode framingData (some (newlineExpression config))
    else framingSeparator data length lastRead opcode framingData none
  separated.map fun r =>
    if r.1 < 0 then (length, r.2)
    else
      let framed := (framingAuto (φ := Bytes) data r.1.toNat 0 r.2.1 none none)
      (framed.1, framed.2.1, r.2.2)

/-! ## `fixedlength` -/

def fixedlenFrame (frameSize length : Nat) : Int :=
  if frameSize = 0 then length else if frameSize ≤ length then frameSize else 0

/-- The framing data is the size of a frame.  At teardown it is read once more after it was
freed. -/
def framingFixedlen : WsFraming? Nat := fun data length _ opcode framingData config =>
  match data, framingData with
  | some _, none =>
    config.map fun config =>
      let frameSize := strtoul0 (cstr config)
      (fixedlenFrame frameSize length, opcode, some frameSize)
  | some _, some frameSize => some (fixedlenFrame frameSize length, opcode, some frameSize)
  | none, some frameSize => some (fixedlenFrame frameSize length, opcode, none)
  | none, none => none

/-! ## `dynamic32` -/

/-- `dynamic32_config_t`; `endian` is set for big endian. -/
structure Dynamic32Config where
  offset : UInt32 := 0
  fixed : Int32 := 0
  endian : Bool := false
  deriving DecidableEq

/-- The option at the start of `s`. -/
def dynamic32Option (s : Bytes) (c : Dynamic32Config) : Dynamic32Config :=
  if strncmp s (ascii "offset=") then { c with offset := (strtoul0 (s.drop 7)).toUInt32 }
  else if strncmp s (ascii "static=") then
    { c with fixed := (strtoul0 (s.drop 7)).toUInt32.toInt32 }
  else if strncmp s (ascii "endian=") then
    { c with endian := strncmp (s.drop 7) (ascii "big") }
  else c

/-- The option loop; the fuel bounds its passes.  It stops at a comma and does not go
past it. -/
def dynamic32Options : Nat → Bytes → Dynamic32Config → Option Dynamic32Config
  | _, [], c => some c
  | 0, _ :: _, _ => none
  | fuel + 1, x :: s, c =>
    dynamic32Options fuel ((x :: s).dropWhile (· != 44)) (dynamic32Option (x :: s) c)

/-- The configuration in a string. -/
def dynamic32Parse (config : Bytes) : Option Dynamic32Config :=
  dynamic32Options (cstr config).length (cstr config) {}

/-- The size field; `none` where it is read through NULL or behind the buffer. -/
def dynamic32Size (c : Dynamic32Config) (data : Option Bytes) (length : Nat) : Option UInt32 :=
  data.bind fun data =>
    if length < c.offset.toNat + 4 then none
    else
      let field := slice data c.offset.toNat 4
      some (ofBigEndian (if c.endian then field else field.reverse)).toUInt32

def dynamic32Frame (c : Dynamic32Config) (data : Option Bytes) (length : Nat) : Option Int :=
  -- both sums are of 32-bit numbers: where the first one wraps, the field is not in the buffer
  if (c.offset + 4).toNat ≤ length then
    (dynamic32Size c data length).map fun size =>
      let total := c.offset + 4 + c.fixed.toUInt32 + size
      if total.toNat ≤ length then total.toNat else 0
  else some 0

/-- At teardown the configuration is read once more after it was freed. -/
def framingDynamic32 : WsFraming? Dynamic32Config :=
  fun data length _ opcode framingData config =>
    match data, framingData with
    | some data, none =>
      (config.bind dynamic32Parse).bind fun c =>
        (dynamic32Frame c (some data) length).map (·, opcode, some c)
    | some data, some c => (dynamic32Frame c (some data) length).map (·, opcode, some c)
    | none, some c => (dynamic32Frame c none length).map (·, opcode, none)
    | none, none => none

end Websocksy
