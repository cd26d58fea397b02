import Mathlib.Algebra.Ring.Nat
import Server8.Indexer.Chunked
import Server8.Protocol.RoundTrip

-- `HTTPRequest::create` of the crawlers, which is the same in Indexer2.cpp and in Indexer3.cpp.

namespace Server8

namespace HTTPRequest

open GetData

-- `[\w\.-]`.
def isHostChar (b : UInt8) : Bool :=
  isWord b || b == 46 || b == 45

def scheme : Bytes :=
  ascii "http://"

-- The first match of `(?<=http://)(?:[\w\.-]+)`. What is before the text is kept backwards.
def searchHost : Bytes → Bytes → Option Bytes
  | _, []          => none
  | before, b :: x =>
    if scheme.reverse <+: before ∧ isHostChar b then some ((b :: x).takeWhile isHostChar)
    else searchHost (b :: before) x

def create (url : Bytes) (content : Bytes := []) (cookie : Bytes := []) (method : Bytes := ascii "GET") : Bytes :=
  let first := url.take 7
  let request := if first ≠ scheme then scheme else []
  match searchHost [] url with
  | none      => []
  | some host =>
    let request := request ++ method ++ ascii " " ++ url ++ ascii " HTTP/1.1\r\n"
    let request := request ++ ascii "Host: " ++ host
    let request := request ++ ascii "\r\nConnection: keep-alive\r\n"
    let request :=
      if content.length > 0 then
        request ++ ascii "Content-Length: " ++ decimal ((content.length : Int).bmod (2 ^ 32)) ++ ascii "\r\n" ++
          ascii "Content-Type: application/x-www-form-urlencoded; charset=UTF-8\r\n"
      else request
    let request := request ++ ascii "Accept: */*;\r\nAccept-Language: zh-CN,zh;q=0.8\r\n"
    let request := if cookie.length > 0 then request ++ cookie ++ ascii "\r\n" else request
    let request := request ++ ascii "\r\n"
    if content.length > 0 then request ++ content else request

section Parse

-- What a server reads in a request.
structure Request where
  method        : Bytes
  url           : Bytes
  version       : Bytes
  host          : Bytes
  contentLength : Option Bytes
  content       : Bytes
  behind        : Bytes
  deriving DecidableEq, Repr

-- The lines before the empty line, and what follows it.
def readLines : Nat → Bytes → Option (List Bytes × Bytes)
  | 0, _     => none
  | n + 1, x =>
    match cut crlf x with
    | none           => none
    | some ([], x)   => some ([], x)
    | some (line, x) => (readLines n x).map fun w => (line :: w.1, w.2)

def isBlank (b : UInt8) : Bool :=
  b == 32 || b == 9

-- The value of a field if the line has this name, in small or capital letters.
def value (name : Bytes) (line : Bytes) : Option Bytes :=
  match cut (ascii ":") line with
  | none          => none
  | some (u, v)   =>
    if u.map toLower = name.map toLower then some ((v.dropWhile isBlank).rdropWhile isBlank) else none

-- The values of all the fields with this name.
def fields (name : String) (lines : List Bytes) : List Bytes :=
  lines.filterMap (value (ascii name))

-- The content and what is behind it. Without a length there is no content, and a length that is no number,
-- that is larger than what there is or that is said twice is an error.
def readContent (x : Bytes) : List Bytes → Option (Option Bytes × Bytes × Bytes)
  | []       => some (none, [], x)
  | [length] =>
    if length ≠ [] ∧ length.all isDigit ∧ digitsValue length ≤ x.length then
      some (some length, x.take (digitsValue length), x.drop (digitsValue length))
    else none
  | _        => none

-- A request has one field for its host.
def parse (x : Bytes) : Option Request := do
  let (line, x) ← cut crlf x
  let (method, line) ← cut (ascii " ") line
  let (url, version) ← cut (ascii " ") line
  let (lines, x) ← readLines (x.length + 1) x
  let (contentLength, content, behind) ← readContent x (fields "Content-Length" lines)
  match fields "Host" lines with
  | [host] => return { method, url, version, host, contentLength, content, behind }
  | _      => none

end Parse

-- The host and the path of a URL.
structure Target where
  host       : Bytes
  path       : Bytes
  host_ne    : host ≠ []
  host_chars : ∀ b ∈ host, isHostChar b = true
  path_head  : path = [] ∨ path.head? = some 47
  path_chars : ∀ b ∈ path, isSpace b = false

def Target.full (t : Target) : Bytes :=
  scheme ++ (t.host ++ t.path)

-- A URL with or without its scheme.
def Target.url (t : Target) (schemed : Bool) : Bytes :=
  if schemed then t.full else t.host ++ t.path

-- The characters of a token: letters, digits and some signs.
def isTokenChar (b : UInt8) : Bool :=
  isWord b || (ascii "!#$%&'*+-.^`|~").contains b

structure Method where
  name  : Bytes
  ne    : name ≠ []
  chars : ∀ b ∈ name, isTokenChar b = true

structure Cookie where
  line   : Bytes
  single : ∀ b ∈ line, b ≠ 13 ∧ b ≠ 10

structure WellFormed (t : Target) (method content request : Bytes) : Prop where
  layout : ∃ lines : List Bytes,
    request = method ++ ascii " " ++ t.full ++ ascii " HTTP/1.1" ++ crlf ++
        lines.flatMap (· ++ crlf) ++ crlf ++ content ∧
      (∀ line ∈ lines, line ≠ [] ∧ IsLine line) ∧
      ascii "Host: " ++ t.host ∈ lines ∧
      (content ≠ [] → ascii "Content-Length: " ++ decimal content.length ∈ lines) ∧
      fields "Content-Length" lines = if content = [] then [] else [decimal content.length]
  parsed : parse request = some {
    method
    url           := t.full
    version       := ascii "HTTP/1.1"
    host          := t.host
    contentLength := if content = [] then none else some (decimal content.length)
    content
    behind        := [] }

section Lines

variable {x y : Bytes} {a : UInt8}

theorem isLine_of_notMem (h : 13 ∉ x) : IsLine x :=
  fun hi => h (hi.subset (by simp [crlf]))

-- The text is cut at the first byte `a`.
theorem cut_byte (h : a ∉ x) (y : Bytes) : cut [a] (x ++ a :: y) = some (x, y) := by
  have hskip : cut [a] (x ++ a :: y) = (cut [a] (a :: y)).map fun p => (x ++ p.1, p.2) := by
    apply cut_skip
    rintro s t rfl ht hp
    obtain ⟨b, t, rfl⟩ := List.exists_cons_of_ne_nil ht
    have hb : a = b := (List.cons_prefix_cons.mp hp).left
    exact h (List.mem_append_right _ (hb ▸ List.mem_cons_self))
  rw [hskip, cut_start (show [a] <+: a :: y from List.prefix_append [a] y)]
  simp

theorem readLines_block {lines : List Bytes} (h : ∀ line ∈ lines, line ≠ [] ∧ IsLine line) {n : Nat}
    (hn : lines.length < n) : readLines n (lines.flatMap (· ++ crlf) ++ (crlf ++ y)) = some (lines, y) := by
  induction lines generalizing n
  case nil =>
    obtain ⟨n, rfl⟩ := Nat.exists_eq_succ_of_ne_zero (Nat.ne_of_gt hn)
    have hc : cut crlf (crlf ++ y) = some ([], y) := cut_start (List.prefix_append crlf y)
    rw [List.flatMap_nil, List.nil_append, readLines, hc]
  case cons line lines ih =>
    obtain ⟨n, rfl⟩ := Nat.exists_eq_succ_of_ne_zero (Nat.ne_of_gt (Nat.zero_lt_of_lt hn))
    obtain ⟨hline, hlines⟩ := List.forall_mem_cons.mp h
    have hc := hline.right.cut_eq (lines.flatMap (· ++ crlf) ++ (crlf ++ y))
    obtain ⟨b, l, rfl⟩ := List.exists_cons_of_ne_nil hline.left
    rw [List.flatMap_cons, List.append_assoc, List.append_assoc, readLines, hc]
    dsimp only
    rw [ih hlines (Nat.lt_of_succ_lt_succ hn), Option.map_some]

theorem length_le_block (lines : List Bytes) : lines.length ≤ (lines.flatMap (· ++ crlf)).length := by
  induction lines
  case nil                => exact Nat.le_refl 0
  case cons line lines ih =>
    have hcrlf : crlf.length = 2 := rfl
    simp only [List.flatMap_cons, List.length_append, List.length_cons, hcrlf]
    omega

theorem isBlank_of_isSpace (h : isSpace a = false) : isBlank a = false := by
  cases ha : isBlank a
  case false => rfl
  case true  =>
    simp only [isBlank, Bool.or_eq_true, beq_iff_eq] at ha
    cases ha
    case inl ha => exact absurd h (ha ▸ by decide)
    case inr ha => exact absurd h (ha ▸ by decide)

variable {name name' : Bytes}

theorem cut_colon (hn : 58 ∉ name) (x : Bytes) :
    cut (ascii ":") (name ++ ascii ": " ++ x) = some (name, 32 :: x) := by
  rw [List.append_assoc]
  exact cut_byte hn (32 :: x)

theorem value_other (hn : 58 ∉ name') (hne : name'.map toLower ≠ name.map toLower) (x : Bytes) :
    value name (name' ++ ascii ": " ++ x) = none := by
  rw [value, cut_colon hn x]
  exact if_neg hne

theorem value_line (hn : 58 ∉ name) (hx : ∀ b ∈ x, isBlank b = false) :
    value name (name ++ ascii ": " ++ x) = some x := by
  have hd : (32 :: x).dropWhile isBlank = x := by
    cases x
    case nil      => rfl
    case cons b x =>
      have hb := hx b List.mem_cons_self
      simp [hb, show isBlank 32 = true from rfl]
  have hr : x.rdropWhile isBlank = x := by
    apply List.rdropWhile_eq_self_iff.mpr
    intro hne
    rw [hx _ (List.getLast_mem hne)]
    exact Bool.false_ne_true
  rw [value, cut_colon hn x]
  dsimp only
  rw [if_pos rfl, hd, hr]

end Lines

section Create

variable {t : Target} {url host content cookie method c : Bytes}

theorem Target.takeWhile_eq (t : Target) : (t.host ++ t.path).takeWhile isHostChar = t.host := by
  have hpath : t.path.takeWhile isHostChar = [] := by
    cases t.path_head
    case inl h => rw [h, List.takeWhile_nil]
    case inr h =>
      obtain ⟨y, hy⟩ := List.head?_eq_some_iff.mp h
      rw [hy]
      rfl
  rw [List.takeWhile_append_of_pos t.host_chars, hpath, List.append_nil]

theorem searchHost_full (t : Target) : searchHost [] t.full = some t.host := by
  obtain ⟨b, x, hx⟩ := List.exists_cons_of_ne_nil t.host_ne
  have hb : isHostChar b = true := t.host_chars b (hx ▸ List.mem_cons_self)
  have hskip : searchHost [] t.full = searchHost scheme.reverse (t.host ++ t.path) :=
    rfl
  rw [hskip, hx, List.cons_append, searchHost, if_pos ⟨List.prefix_refl _, hb⟩, ← List.cons_append, ← hx,
    t.takeWhile_eq]

-- Only with its scheme a URL begins with `http://`: the host in front of the path does not have the colon.
theorem take_eq_scheme (t : Target) (schemed : Bool) : (t.url schemed).take 7 = scheme ↔ schemed = true := by
  cases schemed
  case true  => exact iff_of_true rfl rfl
  case false =>
    refine iff_of_false (fun h => ?_) Bool.false_ne_true
    have hurl : t.host ++ t.path = scheme ++ (t.host ++ t.path).drop 7 := by
      rw [← h]
      exact (List.take_append_drop 7 _).symm
    have hhost : t.host = ascii "http" := by
      rw [← t.takeWhile_eq, hurl]
      rfl
    have hpath : t.path = ascii "://" ++ (t.host ++ t.path).drop 7 :=
      List.append_cancel_left ((congrArg (· ++ t.path) hhost).symm.trans hurl)
    cases t.path_head
    case inl hp => rw [hp] at hpath; cases hpath
    case inr hp => rw [hpath] at hp; cases hp

def lines (host content cookie : Bytes) : List Bytes :=
  [ascii "Host: " ++ host, ascii "Connection: keep-alive"] ++
    (if content = [] then []
      else [ascii "Content-Length: " ++ decimal ((content.length : Int).bmod (2 ^ 32)),
        ascii "Content-Type: application/x-www-form-urlencoded; charset=UTF-8"]) ++
    [ascii "Accept: */*;", ascii "Accept-Language: zh-CN,zh;q=0.8"] ++
    (if cookie = [] then [] else [cookie])

theorem forall_mem_lines {p : Bytes → Prop} (host : p (ascii "Host: " ++ t.host))
    (connection : p (ascii "Connection: keep-alive"))
    (length : p (ascii "Content-Length: " ++ decimal ((content.length : Int).bmod (2 ^ 32))))
    (type : p (ascii "Content-Type: application/x-www-form-urlencoded; charset=UTF-8"))
    (accept : p (ascii "Accept: */*;")) (language : p (ascii "Accept-Language: zh-CN,zh;q=0.8"))
    (cookie : c ≠ [] → p c) : ∀ line ∈ lines t.host content c, p line := by
  have hfirst := List.forall_mem_cons.mpr ⟨host, List.forall_mem_singleton.mpr connection⟩
  have hthird := List.forall_mem_cons.mpr ⟨accept, List.forall_mem_singleton.mpr language⟩
  refine List.forall_mem_append.mpr ⟨List.forall_mem_append.mpr
    ⟨List.forall_mem_append.mpr ⟨hfirst, ?_⟩, hthird⟩, ?_⟩
  · split
    case isTrue  => exact List.forall_mem_nil _
    case isFalse => exact List.forall_mem_cons.mpr ⟨length, List.forall_mem_singleton.mpr type⟩
  · split
    case isTrue    => exact List.forall_mem_nil _
    case isFalse h => exact List.forall_mem_singleton.mpr (cookie h)

theorem create_eq (hh : searchHost [] url = some host) :
    create url content cookie method = (if url.take 7 ≠ scheme then scheme else []) ++
      (method ++ ascii " " ++ url ++ ascii " HTTP/1.1" ++ crlf ++
        (lines host content cookie).flatMap (· ++ crlf) ++ crlf ++ content) := by
  have h₁ : ascii " HTTP/1.1\r\n" = ascii " HTTP/1.1" ++ crlf := rfl
  have h₂ : ascii "\r\nConnection: keep-alive\r\n" = crlf ++ (ascii "Connection: keep-alive" ++ crlf) := rfl
  have h₃ : ascii "Content-Type: application/x-www-form-urlencoded; charset=UTF-8\r\n" =
      ascii "Content-Type: application/x-www-form-urlencoded; charset=UTF-8" ++ crlf := rfl
  have h₄ : ascii "Accept: */*;\r\nAccept-Language: zh-CN,zh;q=0.8\r\n" =
      ascii "Accept: */*;" ++ (crlf ++ (ascii "Accept-Language: zh-CN,zh;q=0.8" ++ crlf)) := rfl
  have h₅ : ascii "\r\n" = crlf := rfl
  simp only [create, hh, h₁, h₂, h₃, h₄, h₅, lines, List.length_pos_iff]
  by_cases hcontent : content = [] <;> by_cases hcookie : cookie = [] <;>
    simp [hcontent, hcookie]

end Create

section Characters

variable {x : Bytes} {a : UInt8}

theorem notMem_of_all {p : UInt8 → Bool} (h : ∀ b ∈ x, p b = true) (ha : p a = false) : a ∉ x :=
  fun hm => Bool.noConfusion (ha.symm.trans (h a hm))

theorem notMem_of_none {p : UInt8 → Bool} (h : ∀ b ∈ x, p b = false) (ha : p a = true) : a ∉ x :=
  fun hm => Bool.noConfusion (ha.symm.trans (h a hm))

theorem isSpace_of_isHostChar (h : isHostChar a = true) : isSpace a = false := by
  simp only [isHostChar, isWord, isDigit, Bool.or_eq_true, Bool.and_eq_true, decide_eq_true_eq, beq_iff_eq,
    UInt8.le_iff_toNat_le, ← UInt8.toNat_inj, UInt8.reduceToNat] at h
  simp only [isSpace, Bool.or_eq_false_iff, Bool.and_eq_false_iff, decide_eq_false_iff_not, beq_eq_false_iff_ne,
    ne_eq, UInt8.le_iff_toNat_le, ← UInt8.toNat_inj, UInt8.reduceToNat]
  omega

theorem Target.isSpace_full (t : Target) : ∀ b ∈ t.full, isSpace b = false := by
  intro b hb
  simp only [full, List.mem_append] at hb
  rcases hb with hb | hb | hb
  · have hs := List.all_eq_true.mp (show scheme.all (fun b => !isSpace b) = true from rfl) b hb
    exact Bool.not_eq_true' _ ▸ hs
  · exact isSpace_of_isHostChar (t.host_chars b hb)
  · exact t.path_chars b hb

theorem isDigit_decimal (n : Nat) : ∀ b ∈ decimal n, isDigit b = true := by
  intro b hb
  obtain ⟨c, hc, rfl⟩ := List.mem_map.mp hb
  exact Packet.isDigit_ofNat (Nat.isDigit_of_mem_toDigits (by decide) (by decide) hc)

-- A number is written with digits and a sign.
theorem isHostChar_decimal (n : Int) : ∀ b ∈ decimal n, isHostChar b = true := by
  have hdigits : ∀ m : Nat, ∀ b ∈ decimal m, isHostChar b = true := by
    intro m b hb
    simp [isHostChar, isWord, isDigit_decimal m b hb]
  cases n
  case ofNat m   => exact hdigits m
  case negSucc m => exact List.forall_mem_cons.mpr ⟨rfl, hdigits (m + 1)⟩

theorem decimal_inj {m : Int} {n : Nat} : decimal m = decimal n ↔ m = n := by
  constructor
  case mpr => exact congrArg decimal
  case mp  =>
    intro h
    cases m
    case ofNat m   =>
      have hm := Packet.digitsValue_decimal (Int.natCast_nonneg m)
      rw [← Packet.digitsValue_decimal (Int.natCast_nonneg n), ← h]
      exact hm.symm
    case negSucc m =>
      have hsign : 45 ∈ decimal n := h ▸ List.mem_cons_self
      exact absurd (isDigit_decimal n 45 hsign) (by decide)

end Characters

section Parsed

variable (t : Target) (method : Method) (content : Bytes) (cookie : Cookie)

theorem lines_clean : ∀ line ∈ lines t.host content cookie.line, line ≠ [] ∧ IsLine line := by
  apply forall_mem_lines
  case host =>
    have hhost : 13 ∉ ascii "Host: " ++ t.host := by
      rw [List.mem_append, not_or]
      exact ⟨by decide, notMem_of_all t.host_chars rfl⟩
    exact ⟨List.append_ne_nil_of_left_ne_nil (by decide) _, isLine_of_notMem hhost⟩
  case length =>
    have hlength : 13 ∉ ascii "Content-Length: " ++ decimal ((content.length : Int).bmod (2 ^ 32)) := by
      rw [List.mem_append, not_or]
      exact ⟨by decide, notMem_of_all (isHostChar_decimal _) rfl⟩
    exact ⟨List.append_ne_nil_of_left_ne_nil (by decide) _, isLine_of_notMem hlength⟩
  case cookie =>
    exact fun hne => ⟨hne, isLine_of_notMem fun hm => (cookie.single 13 hm).left rfl⟩
  all_goals exact ⟨by decide, isLine_of_notMem (by decide)⟩

theorem fields_append (name : String) (x y : List Bytes) : fields name (x ++ y) = fields name x ++ fields name y :=
  List.filterMap_append

-- An empty cookie has no line, and is no field.
theorem fields_cookie (name : String) :
    fields name (if cookie.line = [] then [] else [cookie.line]) = (value (ascii name) cookie.line).toList := by
  split
  case isTrue h  =>
    rw [h]
    rfl
  case isFalse h =>
    rw [fields, List.filterMap_cons]
    cases value (ascii name) cookie.line <;> rfl

theorem fields_host : fields "Host" (lines t.host content cookie.line) =
    t.host :: (value (ascii "Host") cookie.line).toList := by
  have hv : value (ascii "Host") (ascii "Host: " ++ t.host) = some t.host :=
    value_line (by decide) fun b hb => isBlank_of_isSpace (isSpace_of_isHostChar (t.host_chars b hb))
  have hfirst : fields "Host" [ascii "Host: " ++ t.host, ascii "Connection: keep-alive"] = [t.host] := by
    rw [fields, List.filterMap_cons, hv]
    rfl
  have hlength : fields "Host" (if content = [] then []
      else [ascii "Content-Length: " ++ decimal ((content.length : Int).bmod (2 ^ 32)),
        ascii "Content-Type: application/x-www-form-urlencoded; charset=UTF-8"]) = [] := by
    split
    case isTrue  => rfl
    case isFalse =>
      have hv : value (ascii "Host") (ascii "Content-Length: " ++ decimal ((content.length : Int).bmod (2 ^ 32))) =
          none := value_other (show 58 ∉ ascii "Content-Length" by decide) (by decide) _
      rw [fields, List.filterMap_cons, hv]
      decide
  have hthird : fields "Host" [ascii "Accept: */*;", ascii "Accept-Language: zh-CN,zh;q=0.8"] = [] := by
    decide
  rw [lines, fields_append, fields_append, fields_append, hfirst, hlength, hthird, fields_cookie]
  rfl

theorem fields_contentLength : fields "Content-Length" (lines t.host content cookie.line) =
    (if content = [] then [] else [decimal ((content.length : Int).bmod (2 ^ 32))]) ++
      (value (ascii "Content-Length") cookie.line).toList := by
  have hfirst : fields "Content-Length" [ascii "Host: " ++ t.host, ascii "Connection: keep-alive"] = [] := by
    have hv : value (ascii "Content-Length") (ascii "Host: " ++ t.host) = none :=
      value_other (show 58 ∉ ascii "Host" by decide) (by decide) t.host
    rw [fields, List.filterMap_cons, hv]
    decide
  have hlength : fields "Content-Length" (if content = [] then []
      else [ascii "Content-Length: " ++ decimal ((content.length : Int).bmod (2 ^ 32)),
        ascii "Content-Type: application/x-www-form-urlencoded; charset=UTF-8"]) =
      if content = [] then [] else [decimal ((content.length : Int).bmod (2 ^ 32))] := by
    split
    case isTrue  => rfl
    case isFalse =>
      have hv := value_line (show 58 ∉ ascii "Content-Length" by decide) fun b hb =>
        isBlank_of_isSpace (isSpace_of_isHostChar (isHostChar_decimal ((content.length : Int).bmod (2 ^ 32)) b hb))
      exact (List.filterMap_cons_some hv).trans rfl
  have hthird : fields "Content-Length" [ascii "Accept: */*;", ascii "Accept-Language: zh-CN,zh;q=0.8"] = [] := by
    decide
  rw [lines, fields_append, fields_append, fields_append, hfirst, hlength, hthird, fields_cookie, List.nil_append,
    List.append_nil]

theorem create_full : create t.full content cookie.line method.name =
    method.name ++ ascii " " ++ t.full ++ ascii " HTTP/1.1" ++ crlf ++
      (lines t.host content cookie.line).flatMap (· ++ crlf) ++ crlf ++ content := by
  rw [create_eq (searchHost_full t), if_neg (not_not.mpr (show t.full.take 7 = scheme from rfl)), List.nil_append]

theorem parse_create : parse (create t.full content cookie.line method.name) =
    (readContent content (fields "Content-Length" (lines t.host content cookie.line))).bind fun w =>
      match fields "Host" (lines t.host content cookie.line) with
      | [host] => some {
        method        := method.name
        url           := t.full
        version       := ascii "HTTP/1.1"
        host
        contentLength := w.1
        content       := w.2.1
        behind        := w.2.2 }
      | _      => none := by
  have hfull : ∀ a, isSpace a = true → a ∉ t.full := fun a => notMem_of_none t.isSpace_full
  have hmethod : ∀ a, isTokenChar a = false → a ∉ method.name := fun a => notMem_of_all method.chars
  have hline : IsLine (method.name ++ ascii " " ++ t.full ++ ascii " HTTP/1.1") := by
    apply isLine_of_notMem
    simp only [List.mem_append, not_or]
    exact ⟨⟨⟨hmethod 13 (by decide), by decide⟩, hfull 13 rfl⟩, by decide⟩
  have hlines := lines_clean t content cookie
  have hlength := length_le_block (lines t.host content cookie.line)
  have hcreate := create_full t method content cookie
  have hrest : (lines t.host content cookie.line).length <
      ((lines t.host content cookie.line).flatMap (· ++ crlf) ++ (crlf ++ content)).length + 1 := by
    rw [List.length_append]
    omega
  have h₁ := hline.cut_eq ((lines t.host content cookie.line).flatMap (· ++ crlf) ++ (crlf ++ content))
  have h₂ := cut_byte (hmethod 32 (by decide)) (t.full ++ ascii " HTTP/1.1")
  have h₃ := cut_byte (hfull 32 rfl) (ascii "HTTP/1.1")
  have h₄ := readLines_block (y := content) hlines hrest
  have hspace : ascii " " = [32] := rfl
  have hversion : ascii " HTTP/1.1" = 32 :: ascii "HTTP/1.1" := rfl
  simp only [hspace, hversion, List.append_assoc, List.cons_append, List.nil_append] at h₁ h₂ h₃ h₄ hcreate ⊢
  simp only [hcreate, parse, hspace, h₁, h₂, h₃, h₄, Option.bind_eq_bind, Option.bind_some, Option.pure_def]

variable {t method content cookie}

theorem bmod_length (n : Nat) : ((n : Int).bmod (2 ^ 32) = n) ↔ n < 2 ^ 31 := by
  have h := Int.bmod_def (n : Int) (2 ^ 32)
  split at h
  all_goals omega

-- The cookie is neither of the two fields that say how to read the request.
def Cookie.Apart (cookie : Cookie) : Prop :=
  value (ascii "Host") cookie.line = none ∧ value (ascii "Content-Length") cookie.line = none

theorem readContent_decimal (content : Bytes) :
    readContent content [decimal content.length] = some (some (decimal content.length), content, []) := by
  have hvalue : digitsValue (decimal content.length) = content.length :=
    Int.natCast_inj.mp (Packet.digitsValue_decimal (Int.natCast_nonneg _))
  have hne : decimal content.length ≠ [] := by
    refine List.ne_nil_of_length_pos ?_
    show 0 < ((Nat.toDigits 10 content.length).map _).length
    rw [List.length_map]
    exact Nat.length_toDigits_pos
  have hdigits : (decimal content.length).all isDigit = true := List.all_eq_true.mpr (isDigit_decimal content.length)
  rw [readContent, if_pos ⟨hne, hdigits, Nat.le_of_eq hvalue⟩, hvalue, List.take_length, List.drop_length]

-- What the parser says of the content.
theorem readContent_lines_iff :
    readContent content (fields "Content-Length" (lines t.host content cookie.line)) =
        some (if content = [] then none else some (decimal content.length), content, []) ↔
      content.length < 2 ^ 31 ∧ value (ascii "Content-Length") cookie.line = none := by
  rw [fields_contentLength]
  cases hv : value (ascii "Content-Length") cookie.line
  case none   =>
    rw [Option.toList_none, List.append_nil]
    by_cases h : content = []
    case pos =>
      rw [h]
      exact iff_of_true rfl ⟨by decide, rfl⟩
    case neg =>
      rw [if_neg h, if_neg h]
      constructor
      case mp  =>
        intro hr
        refine ⟨(bmod_length _).mp (decimal_inj.mp ?_), rfl⟩
        rw [readContent, Option.ite_none_right_eq_some] at hr
        exact Option.some.inj (Prod.mk.inj (Option.some.inj hr.right)).left
      case mpr =>
        intro hl
        rw [(bmod_length _).mpr hl.left]
        exact readContent_decimal content
  case some length =>
    refine iff_of_false (fun hr => ?_) fun hl => Option.some_ne_none _ hl.right
    by_cases h : content = []
    case pos =>
      rw [if_pos h, if_pos h, Option.toList_some, List.nil_append, readContent,
        Option.ite_none_right_eq_some] at hr
      exact Option.some_ne_none _ (Prod.mk.inj (Option.some.inj hr.right)).left
    case neg =>
      rw [if_neg h] at hr
      cases hr

-- For a URL without the scheme there is no request, or the scheme is in front of the method.
theorem not_prefix_create {url : Bytes} (hs : url.take 7 ≠ scheme) :
    ¬method.name ++ ascii " " <+: create url content cookie.line method.name := by
  rintro ⟨rest, h⟩
  cases hh : searchHost [] url
  case none      =>
    have hc : create url content cookie.line method.name = [] := by
      simp only [create, hh]
    rw [hc] at h
    have hempty := (List.append_eq_nil_iff.mp h).left
    exact absurd (List.append_eq_nil_iff.mp hempty).left method.ne
  case some host =>
    have hspace : ascii " " = [32] := rfl
    have hname : 32 ∉ method.name := notMem_of_all method.chars (by decide)
    have hprefix : 32 ∉ scheme ++ method.name := by
      rw [List.mem_append, not_or]
      exact ⟨by decide, hname⟩
    rw [create_eq hh, if_pos hs] at h
    simp only [hspace, List.append_assoc, List.cons_append, List.nil_append] at h
    rw [← List.append_assoc scheme] at h
    have hc := congrArg (cut [32]) h
    rw [cut_byte hname, cut_byte hprefix] at hc
    have hlength := congrArg List.length (Prod.mk.inj (Option.some.inj hc)).left
    rw [List.length_append] at hlength
    exact absurd hlength (Nat.ne_of_lt (Nat.lt_add_of_pos_left (by decide)))

-- The request is well formed if and only if the URL has its scheme, the size of the content fits an
-- `int`, and the cookie is not a field that says otherwise.
theorem wellFormed_iff (t : Target) (schemed : Bool) (method : Method) (content : Bytes) (cookie : Cookie) :
    WellFormed t method.name content (create (t.url schemed) content cookie.line method.name) ↔
      schemed = true ∧ content.length < 2 ^ 31 ∧ cookie.Apart := by
  constructor
  case mp =>
    intro h
    cases schemed
    case false =>
      obtain ⟨lines, hr, _⟩ := h.layout
      have hs := (take_eq_scheme t false).not.mpr Bool.false_ne_true
      rw [List.append_assoc, List.append_assoc, List.append_assoc, List.append_assoc, List.append_assoc] at hr
      exact absurd ⟨_, hr.symm⟩ (not_prefix_create hs)
    case true  =>
      have hp := (parse_create t method content cookie).symm.trans h.parsed
      obtain ⟨w, hw, hp⟩ := Option.bind_eq_some_iff.mp hp
      rw [fields_host] at hp
      cases hhost : value (ascii "Host") cookie.line
      case some host => rw [hhost] at hp; cases hp
      case none      =>
        rw [hhost] at hp
        have hp := Option.some.inj hp
        have hcontent : w = (if content = [] then none else some (decimal content.length), content, []) :=
          Prod.ext (congrArg Request.contentLength hp)
            (Prod.ext (congrArg Request.content hp) (congrArg Request.behind hp))
        rw [hcontent] at hw
        have hlength := (readContent_lines_iff (t := t)).mp hw
        exact ⟨rfl, hlength.left, hhost, hlength.right⟩
  case mpr =>
    rintro ⟨rfl, hlength, hhost, hcookie⟩
    constructor
    case layout =>
      refine ⟨lines t.host content cookie.line, create_full t method content cookie,
        lines_clean t content cookie, List.mem_cons_self, ?_, ?_⟩
      · intro hc
        rw [lines, if_neg hc, (bmod_length content.length).mpr hlength]
        simp
      · rw [fields_contentLength, hcookie, (bmod_length content.length).mpr hlength]
        exact List.append_nil _
    case parsed =>
      refine (parse_create t method content cookie).trans ?_
      rw [readContent_lines_iff.mpr ⟨hlength, hcookie⟩, fields_host, hhost]
      rfl

section Requests

def sampleTarget : Target where
  host       := ascii "host"
  path       := ascii "/"
  host_ne    := by decide
  host_chars := List.all_eq_true.mp rfl
  path_head  := .inr rfl
  path_chars := List.forall_mem_singleton.mpr rfl

def get : Method where
  name  := ascii "GET"
  ne    := by decide
  chars := List.all_eq_true.mp rfl

def noCookie : Cookie where
  line   := []
  single := List.forall_mem_nil _

-- There is no request for the URL `host/`.
theorem create_not_wellFormed :
    ¬∀ (t : Target) (schemed : Bool) (method : Method) (content : Bytes) (cookie : Cookie),
      WellFormed t method.name content (create (t.url schemed) content cookie.line method.name) := by
  intro h
  have hp := (h sampleTarget false get [] noCookie).parsed
  revert hp
  decide

end Requests

end Parsed

end HTTPRequest

end Server8
