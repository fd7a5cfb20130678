import Mathlib.Data.List.DropRight
import Mathlib.Tactic.Common

/-! Paths and URLs as `posixpath` and `urllib.parse` read them, as lists of characters. -/
namespace KenkuiServer.Data.Posix

def join (a b : List Char) : List Char :=
  if b.head? = some '/' then b
  else if a = [] ∨ a.getLast? = some '/' then a ++ b
  else a ++ '/' :: b

def dirname (path : List Char) : List Char :=
  let head := path.rdropWhile (· ≠ '/')
  if head.all (· = '/') then head else head.rdropWhile (· = '/')

/-- The slashes that a normal path keeps at its start: none, one, or exactly two. -/
def initialSlashes : List Char → ℕ
  | '/' :: '/' :: '/' :: _ => 1
  | '/' :: '/' :: _ => 2
  | '/' :: _ => 1
  | _ => 0

/-- What `normpath` does with one component. -/
def push (slashes : ℕ) (comps : List (List Char)) (comp : List Char) : List (List Char) :=
  if comp = [] ∨ comp = ['.'] then comps
  else if comp ≠ ['.', '.'] ∨ (slashes = 0 ∧ comps = []) ∨
    comps.getLast? = some ['.', '.'] then comps ++ [comp]
  else comps.dropLast

def normpath (path : List Char) : List Char :=
  if path = [] then ['.']
  else
    let slashes := initialSlashes path
    let comps := (path.splitOn '/').foldl (push slashes) []
    let normal := List.replicate slashes '/' ++ ['/'].intercalate comps
    if normal = [] then ['.'] else normal

/-- `".." in PurePosixPath(path).parts`. -/
def hasParent (path : List Char) : Bool := ['.', '.'] ∈ path.splitOn '/'

structure Url where
  scheme : List Char
  netloc : List Char
  path : List Char
  query : List Char
  fragment : List Char

def isSchemeChar (c : Char) : Bool := c.isAlphanum || c ∈ ['+', '-', '.']

/-- The scheme, where what stands before the first colon is one, and the rest. -/
def splitScheme (url : List Char) : List Char × List Char :=
  let before := url.takeWhile (· ≠ ':')
  if before.length < url.length ∧ before.head?.any Char.isAlpha ∧ before.all isSchemeChar then
    (before.map Char.toLower, url.drop (before.length + 1))
  else ([], url)

/-- `url.split(separator, 1)`, and nothing after a separator that is not there. -/
def cut (separator : Char) (url : List Char) : List Char × List Char :=
  (url.takeWhile (· ≠ separator), (url.dropWhile (· ≠ separator)).drop 1)

def splitNetloc : List Char → List Char × List Char
  | '/' :: '/' :: rest => (rest.takeWhile (· ∉ ['/', '?', '#']), rest.dropWhile (· ∉ ['/', '?', '#']))
  | url => ([], url)

/-- `urlsplit`, up to its checks of a netloc. -/
def urlsplit (text : List Char) : Url :=
  let url := (text.dropWhile fun c => c.val ≤ 32).filter fun c => c ∉ ['\t', '\r', '\n']
  let (scheme, url) := splitScheme url
  let (netloc, url) := splitNetloc url
  let (url, fragment) := cut '#' url
  let (path, query) := cut '?' url
  ⟨scheme, netloc, path, query, fragment⟩

def hexValue (c : Char) : Option ℕ :=
  if '0' ≤ c ∧ c ≤ '9' then some (c.toNat - '0'.toNat)
  else if 'a' ≤ c ∧ c ≤ 'f' then some (c.toNat - 'a'.toNat + 10)
  else if 'A' ≤ c ∧ c ≤ 'F' then some (c.toNat - 'A'.toNat + 10)
  else none

/-- `unquote_to_bytes` of ASCII characters: an escape that is none stays as it is. -/
def unquoteToBytes : List Char → List ℕ
  | '%' :: a :: b :: rest =>
    match hexValue a, hexValue b with
    | some high, some low => (high * 16 + low) :: unquoteToBytes rest
    | _, _ => '%'.toNat :: unquoteToBytes (a :: b :: rest)
  | c :: rest => c.toNat :: unquoteToBytes rest
  | [] => []

/-- A sequence under way: its value so far, the bytes it still needs, and the bounds of the next one. -/
structure Pending where
  value : ℕ
  missing : ℕ
  low : ℕ := 0x80
  high : ℕ := 0xBF

/-- The sequence that a byte begins. -/
def leading (byte : ℕ) : Option Pending :=
  if 0xC2 ≤ byte ∧ byte ≤ 0xDF then some ⟨byte % 32, 1, 0x80, 0xBF⟩
  else if byte = 0xE0 then some ⟨byte % 16, 2, 0xA0, 0xBF⟩
  else if byte = 0xED then some ⟨byte % 16, 2, 0x80, 0x9F⟩
  else if 0xE1 ≤ byte ∧ byte ≤ 0xEF then some ⟨byte % 16, 2, 0x80, 0xBF⟩
  else if byte = 0xF0 then some ⟨byte % 8, 3, 0x90, 0xBF⟩
  else if byte = 0xF4 then some ⟨byte % 8, 3, 0x80, 0x8F⟩
  else if 0xF1 ≤ byte ∧ byte ≤ 0xF3 then some ⟨byte % 8, 3, 0x80, 0xBF⟩
  else none

/-- A byte outside a sequence: the character it is or stands for, or the sequence it begins. -/
def start (byte : ℕ) : List Char × Option Pending :=
  if byte < 0x80 then ([Char.ofNat byte], none)
  else
    match leading byte with
    | none => (['\uFFFD'], none)
    | some pending => ([], some pending)

/-- `bytes.decode("utf-8", "replace")`: what is no sequence becomes one replacement character. -/
def decode : Option Pending → List ℕ → List Char
  | none, [] => []
  | some _, [] => ['\uFFFD']
  | none, byte :: rest => (start byte).1 ++ decode (start byte).2 rest
  | some pending, byte :: rest =>
    if pending.low ≤ byte ∧ byte ≤ pending.high then
      let value := pending.value * 64 + byte % 64
      if pending.missing = 1 then Char.ofNat value :: decode none rest
      else decode (some ⟨value, pending.missing - 1, 0x80, 0xBF⟩) rest
    else '\uFFFD' :: (start byte).1 ++ decode (start byte).2 rest

/-- The runs of ASCII characters are decoded, the others stay. -/
def unquoteRuns (run : List Char) : List Char → List Char
  | [] => decode none (unquoteToBytes run)
  | c :: rest =>
    if c.toNat < 0x80 then unquoteRuns (run ++ [c]) rest
    else decode none (unquoteToBytes run) ++ c :: unquoteRuns [] rest

def unquote (text : List Char) : List Char := if '%' ∉ text then text else unquoteRuns [] text

section
variable {name : List Char}

/-- A name that no scheme, path, query or escape is read into. -/
structure Plain (name : List Char) : Prop where
  chars : ∀ c ∈ name, 32 < c.val ∧ c ∉ [':', '/', '?', '#', '%']
  nonempty : name ≠ []
  notDot : name ≠ ['.']
  notParent : name ≠ ['.', '.']

theorem Plain.not_mem (h : Plain name) {c : Char} (hc : c ∈ [':', '/', '?', '#', '%']) : c ∉ name :=
  fun hmem => (h.chars c hmem).2 hc

theorem takeWhile_of_not_mem {c : Char} (h : c ∉ name) : name.takeWhile (· ≠ c) = name := by
  rw [List.takeWhile_eq_self_iff]
  intro x hx
  have hne : x ≠ c := fun hxc => h (hxc ▸ hx)
  simpa using hne

theorem cut_of_not_mem {c : Char} (h : c ∉ name) : cut c name = (name, []) := by
  have hdrop : name.dropWhile (· ≠ c) = [] := by
    rw [List.dropWhile_eq_nil_iff]
    intro x hx
    have hne : x ≠ c := fun hxc => h (hxc ▸ hx)
    simpa using hne
  unfold cut
  rw [takeWhile_of_not_mem h, hdrop]
  rfl

theorem Plain.unquote (h : Plain name) : unquote name = name := by
  have hpercent : '%' ∉ name := h.not_mem (by decide)
  exact if_pos hpercent

theorem Plain.urlsplit (h : Plain name) : urlsplit name = ⟨[], [], name, [], []⟩ := by
  have hdrop : name.dropWhile (fun c => c.val ≤ 32) = name := by
    rw [List.dropWhile_eq_self_iff]
    intro hlength
    simpa using (h.chars _ (List.getElem_mem hlength)).1
  have hfilter : name.filter (fun c => c ∉ ['\t', '\r', '\n']) = name := by
    rw [List.filter_eq_self]
    intro c hc
    have hspace := (h.chars c hc).1
    simp only [List.mem_cons, List.not_mem_nil, or_false, not_or, decide_eq_true_eq]
    refine ⟨?_, ?_, ?_⟩ <;> rintro rfl <;> exact absurd hspace (by decide)
  have hscheme : splitScheme name = ([], name) := by
    have hcolon : ':' ∉ name := h.not_mem (by decide)
    unfold splitScheme
    rw [takeWhile_of_not_mem hcolon]
    simp
  have hslash : '/' ∉ name := h.not_mem (by decide)
  have hnetloc : splitNetloc name = ([], name) := by
    unfold splitNetloc
    split
    · exact absurd (List.mem_cons_self) hslash
    · rfl
  have hfragment : '#' ∉ name := h.not_mem (by decide)
  have hquery : '?' ∉ name := h.not_mem (by decide)
  unfold Posix.urlsplit
  simp only [hdrop, hfilter, hscheme, hnetloc, cut_of_not_mem hfragment, cut_of_not_mem hquery]

theorem splitOn_last {front : List Char} (h : '/' ∉ name) (hfront : front = [] ∨ front.getLast? = some '/') :
    ∃ comps, (front ++ name).splitOn '/' = comps ++ [name] := by
  rcases hfront with rfl | hlast
  · exact ⟨[], List.splitOn_eq_singleton h⟩
  · obtain ⟨parent, rfl⟩ := List.getLast?_eq_some_iff.mp hlast
    refine ⟨parent.splitOn '/', ?_⟩
    rw [List.append_assoc, List.singleton_append, List.splitOn_append_cons_self, List.splitOn_eq_singleton h]

theorem intercalate_concat (name : List Char) (comps : List (List Char)) :
    ∃ front, ['/'].intercalate (comps ++ [name]) = front ++ name := by
  induction comps with
  | nil => exact ⟨[], List.intercalate_singleton⟩
  | cons comp comps ih =>
    obtain ⟨front, hfront⟩ := ih
    refine ⟨comp ++ ['/'] ++ front, ?_⟩
    rw [List.cons_append, List.intercalate_cons_of_ne_nil (by simp), hfront]
    simp only [List.append_assoc]

theorem Plain.normpath_join (h : Plain name) (base : List Char) :
    ∃ front, normpath (join (dirname base) name) = front ++ name := by
  have hslash : '/' ∉ name := h.not_mem (by decide)
  obtain ⟨parent, hjoin, hparent⟩ : ∃ parent, join (dirname base) name = parent ++ name ∧
      (parent = [] ∨ parent.getLast? = some '/') := by
    unfold join
    split_ifs with habsolute hempty
    · exact ⟨[], rfl, .inl rfl⟩
    · exact ⟨dirname base, rfl, hempty⟩
    · exact ⟨dirname base ++ ['/'], by simp, .inr (by simp)⟩
  obtain ⟨comps, hcomps⟩ := splitOn_last hslash hparent
  have hpush : ∀ slashes comps', push slashes comps' name = comps' ++ [name] := by
    intro slashes comps'
    unfold push
    rw [if_neg (by simp [h.nonempty, h.notDot]), if_pos (.inl h.notParent)]
  obtain ⟨front, hfront⟩ := intercalate_concat name
    (comps.foldl (push (initialSlashes (parent ++ name))) [])
  have hnonempty : parent ++ name ≠ [] := by simp [h.nonempty]
  refine ⟨List.replicate (initialSlashes (parent ++ name)) '/' ++ front, ?_⟩
  unfold normpath
  rw [hjoin, if_neg hnonempty, hcomps]
  simp only [List.foldl_append, List.foldl_cons, List.foldl_nil, hpush, hfront]
  rw [if_neg (by simp [h.nonempty])]
  simp only [List.append_assoc]

end

end KenkuiServer.Data.Posix
