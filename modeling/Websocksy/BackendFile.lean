import Websocksy.Client

/-!
# The file backend: `plugins/backend_file.c`

A string is given by the characters before its NUL.  `expression_resolve` works in place on
the template, at an index that moves past each replacement; `Expansion` is what it changes.
A result `none` of `query` or one of its parts means that it does not come back: it reads
behind `target_path`, or through a NULL pointer.
-/

namespace Websocksy

open Buffer CString

variable {φ : Type}

/-- `BACKEND_FILE_MAX_PATH` -/
def backendFileMaxPath : Nat := 8192

/-! ## Expressions -/

/-- A character of a replacement: slashes become underscores. -/
def sanitize (c : UInt8) : UInt8 := if c = 47 then 95 else c

/-- `expression_replace`; `none` if the replacement does not fit. -/
def expressionReplace (buffer : Bytes) (bufferLength variableLength : Nat) (content : Bytes) :
    Option Bytes :=
  if variableLength < content.length ∧
      bufferLength ≤ buffer.length + (content.length - variableLength) then none
  else some (content.map sanitize ++ buffer.drop variableLength)

/-- Behind the next `"; "`, or at the end. -/
def nextCookie : Bytes → Bytes
  | [] => []
  | c :: value =>
    if strncmp (c :: value) (ascii "; ") then (c :: value).drop 2 else nextCookie value

/-- The loop over the cookies in a `Cookie` header. -/
def findCookie (index : Bytes) : Nat → Bytes → Option Bytes
  | 0, _ => none
  | fuel + 1, value =>
    if value.length < index.length + 1 then none
    else if value.getD index.length 0 = 61 ∧ strncmp value index then
      let value := value.drop (index.length + 1)
      -- a cookie that ends the header has to have a value
      if value.isEmpty then none else some (value.takeWhile (· != 59))
    else
      let value := nextCookie value
      if value.isEmpty then none else findCookie index fuel value

/-- What stands at a place of the template: no variable, one that fails the expression, or
one of the given length with its value. -/
inductive ExpressionVariable
  | none
  | fail
  | value (variableLen : Nat) (value : Bytes)

/-- The variable at the start of `template`, and the endpoint, which loses a slash at its end. -/
def expressionVariable (template endpoint : Bytes) (header : List WsHttpHeader) :
    ExpressionVariable × Bytes :=
  if strncmp template (ascii "%endpoint%") then
    if endpoint.length < 1 then (.fail, endpoint)
    else
      let endpoint :=
        if 2 ≤ endpoint.length ∧ endpoint.getLast? = some 47 then endpoint.dropLast else endpoint
      (.value 10 (endpoint.drop 1), endpoint)
  else if strncmp template (ascii "%cookie:") then
    match strchr 37 (template.drop 8) with
    | .none => (.fail, endpoint)
    | .some (index, _) =>
      match header.find? (·.tag = ascii "Cookie") with
      | .none => (.fail, endpoint)
      | .some h =>
        match findCookie index (h.value.length + 1) h.value with
        | .none => (.fail, endpoint)
        | .some value => (.value (8 + index.length + 1) value, endpoint)
  else if strncmp template (ascii "%header:") then
    match strchr 37 (template.drop 8) with
    | .none => (.fail, endpoint)
    | .some (index, _) =>
      match header.find? (·.tag = index) with
      | .none => (.fail, endpoint)
      | .some h => (.value (8 + index.length + 1) h.value, endpoint)
  else (.none, endpoint)

structure Expansion where
  u : Nat := 0
  template : Bytes
  endpoint : Bytes
  deriving DecidableEq

/-- One pass of the loop, true if the expression fails.  The index is a `size_t`: an empty value
moves it back by one before it is counted up. -/
def expressionPass (length : Nat) (header : List WsHttpHeader) (s : Expansion) : Bool × Expansion :=
  let template := s.template.drop s.u
  if template.head? = some 37 then
    match expressionVariable template s.endpoint header with
    | (.none, endpoint) => (false, { s with u := (s.u + 1) % 2 ^ 64, endpoint := endpoint })
    | (.fail, endpoint) => (true, { s with endpoint := endpoint })
    | (.value variableLen value, endpoint) =>
      match expressionReplace template (length - s.u) variableLen value with
      | none => (true, { s with endpoint := endpoint })
      | some template =>
        let u := (s.u + (value.length + (2 ^ 64 - 1)) % 2 ^ 64) % 2 ^ 64
        (false, ⟨(u + 1) % 2 ^ 64, s.template.take s.u ++ template, endpoint⟩)
  else (false, { s with u := (s.u + 1) % 2 ^ 64 })

/-- The loop of `expression_resolve`, cut off after the given number of passes. -/
def expressionLoop (length : Nat) (header : List WsHttpHeader) : Nat → Expansion → Bool × Expansion
  | 0, s => (false, s)
  | fuel + 1, s =>
    if s.template.length ≤ s.u then (false, s)
    else
      let r := expressionPass length header s
      if r.1 then r else expressionLoop length header fuel r.2

/-- `expression_resolve`, true for a nonzero result.  There is a pass for each character of
the template at most. -/
def expressionResolve (template : Bytes) (length : Nat) (endpoint : Bytes)
    (header : List WsHttpHeader) : Bool × Expansion :=
  expressionLoop length header template.length ⟨0, template, endpoint⟩

/-! ## Configuration -/

structure BackendFile where
  backendPath : Bytes := []
  expression : List Bytes := []
  deriving DecidableEq

/-- `configure`, true for a nonzero result. -/
def BackendFile.configure (key value : Bytes) (b : BackendFile) : Bool × BackendFile :=
  if key = ascii "path" then
    (false, { b with backendPath := if value.getLast? = some 47 then value.dropLast else value })
  else if key = ascii "expression" then (false, { b with expression := b.expression ++ [value] })
  else (true, b)

/-! ## Framing functions by name -/

/-- The framing functions that are registered.  The core registers `auto` before any backend
is asked. -/
structure FramingLibrary (φ : Type) where
  functions : List (Bytes × WsFraming φ)
  auto : ∃ f, functions.lookup (ascii "auto") = some f

/-- `plugin_framing`, called as `core_framing`: an unknown name is asked for as "auto". -/
def FramingLibrary.framing (l : FramingLibrary φ) (name : Option Bytes) : Option (WsFraming φ) :=
  match name.bind fun name => l.functions.lookup name with
  | some f => some f
  | none => l.functions.lookup (ascii "auto")

/-! ## Reading a file -/

/-- Cut off what is not printable at the end of a line; its first character stays. -/
def rtrimLine : Bytes → Bytes
  | [] => []
  | c :: line => c :: (line.reverse.dropWhile fun c => !isprint c).reverse

/-- The name of a protocol, or `*`, in the list that the client indicated. -/
def matchProtocol (protocol : List Bytes) (name : Bytes) (index : Nat) : Nat :=
  let index := (protocol.findIdx? (· = name)).getD index
  if name = ascii "*" then 0 else index

/-- One line: `none` if an absent field is read; otherwise the peer record, with a host if the
line is taken. -/
def queryLine (l : FramingLibrary φ) (protocol : List Bytes) (line : Bytes) (peer : WsPeerInfo φ) :
    Option (WsPeerInfo φ) :=
  let line := rtrimLine (cstr line)
  match strchr 32 line with
  | none => if protocol.length ≠ 0 then some peer else none
  | some (host, rest) =>
    let fields : Bytes × Option Bytes × Option Bytes :=
      match strchr 32 rest with
      | none => (rest, none, none)
      | some (subprotocol, rest) =>
        match strchr 32 rest with
        | none => (subprotocol, some rest, none)
        | some (framing, config) => (subprotocol, some framing, some config)
    let peer := { peer with protocol := matchProtocol protocol fields.1 peer.protocol }
    if protocol.length ≠ 0 ∧ peer.protocol = protocol.length then some peer
    else some { peer with
      host := some host, framing := l.framing fields.2.1, framingConfig := fields.2.2 }

/-- The lines of a file, up to one that is taken. -/
def queryLines (l : FramingLibrary φ) (protocol : List Bytes) :
    List Bytes → WsPeerInfo φ → Option (WsPeerInfo φ)
  | [], peer => some peer
  | line :: lines, peer =>
    match queryLine l protocol line peer with
    | none => none
    | some peer => if peer.host.isSome then some peer else queryLines l protocol lines peer

/-! ## `query` -/

/-- The path an expression comes to, if it does not fail, and the endpoint. -/
def expressionPath (backendPath expression endpoint : Bytes) (header : List WsHttpHeader) :
    Option (Option Bytes × Bytes) :=
  if backendFileMaxPath ≤ backendPath.length + 1 then none
  else
    let targetPath := (backendPath ++ 47 :: expression).take (backendFileMaxPath - 1)
    let start := backendPath.length + 1
    let r := expressionResolve (targetPath.drop start) (backendFileMaxPath - start) endpoint header
    some (if r.1 then none else some (targetPath.take start ++ r.2.template), r.2.endpoint)

/-- The loop over the expressions; `file` gives the contents of the files that can be opened. -/
def queryExpressions (l : FramingLibrary φ) (file : Bytes → Option Bytes) (backendPath : Bytes)
    (protocol : List Bytes) (header : List WsHttpHeader) :
    List Bytes → Bytes → WsPeerInfo φ → Option (WsPeerInfo φ)
  | [], _, peer => some peer
  | expression :: expressions, endpoint, peer =>
    match expressionPath backendPath expression endpoint header with
    | none => none
    | some (path, endpoint) =>
      match path.bind file with
      | none => queryExpressions l file backendPath protocol header expressions endpoint peer
      | some content =>
        match queryLines l protocol (getLines content) peer with
        | none => none
        | some peer =>
          if peer.host.isSome then some peer
          else queryExpressions l file backendPath protocol header expressions endpoint peer

/-- `query` -/
def BackendFile.query (b : BackendFile) (l : FramingLibrary φ) (file : Bytes → Option Bytes)
    (endpoint : Bytes) (protocol : List Bytes) (header : List WsHttpHeader) :
    Option (WsPeerInfo φ) :=
  queryExpressions l file b.backendPath protocol header b.expression endpoint
    { transport := .detect, protocol := protocol.length }

end Websocksy
