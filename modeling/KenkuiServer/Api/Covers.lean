import KenkuiServer.Data.Element
import KenkuiServer.Data.Posix
import KenkuiServer.Jobs.Models
import Mathlib.Algebra.BigOperators.Group.List.Basic
import Mathlib.Algebra.GroupWithZero.Nat
import Mathlib.Algebra.Order.BigOperators.Group.List
import Mathlib.Algebra.Order.Ring.Nat
import Mathlib.Data.List.Forall2
import Mathlib.Data.List.Infix
import Mathlib.Data.List.Nodup
import Mathlib.Data.List.Sort

/-! Bounded reads of the cover of an EPUB, and the replacement of what its source declares as the cover.
Reading and writing archives and documents are parameters. -/
namespace KenkuiServer.Api.Covers
open Data

abbrev Bytes := List UInt8

inductive Failure
  | value (message : String)
  | key (name : String)
  | stopIteration
  /-- What reading an archive or a document raises. -/
  | unreadable (name : String)
  deriving DecidableEq, Repr

/-- An entry of an archive: its `ZipInfo`, and what reading it gives. -/
structure Member where
  filename : String
  fileSize : ℕ
  compressSize : ℕ
  /-- `flag_bits & 1`. -/
  encrypted : Bool
  compressType : ℕ
  content : Except Failure Bytes

/-- What is given to `writestr`. -/
structure Entry where
  filename : String
  compressType : ℕ
  data : Bytes
  deriving DecidableEq

structure Libraries where
  /-- `ZipFile(io.BytesIO(source)).infolist()`. -/
  unzip : Bytes → Except Failure (List Member)
  /-- The archive that `writestr` makes of its entries. -/
  zip : List Entry → Bytes
  /-- The size of what a compression type makes of the bytes. -/
  deflate : ℕ → Bytes → ℕ
  fromstring : Bytes → Except Failure Element
  /-- `tostring(.., encoding="utf-8", xml_declaration=True)`. -/
  tostring : Element → Bytes

/-- An entry as it is read back. -/
def Libraries.stored (lib : Libraries) (entry : Entry) : Member :=
  ⟨entry.filename, entry.data.length, lib.deflate entry.compressType entry.data, false, entry.compressType,
    .ok entry.data⟩

def maxCoverBytes : ℕ := 8 * 1024 * 1024

def opf (name : String) : String := "\x7bhttp://www.idpf.org/2007/opf\x7d" ++ name

def imageType (payload : Bytes) : Except Failure String :=
  let refused := .error (.value "Choose a PNG or JPEG cover up to 8 MB.")
  if 32 ≤ payload.length ∧ payload.length ≤ maxCoverBytes then
    if [0x89, 0x50, 0x4E, 0x47, 0x0D, 0x0A, 0x1A, 0x0A] <+: payload then .ok "image/png"
    else if [0xFF, 0xD8, 0xFF] <+: payload then .ok "image/jpeg"
    else refused
  else refused

def resolve (base href : String) : Except Failure String :=
  let url := Posix.urlsplit href.toList
  if url.scheme ≠ [] ∨ url.netloc ≠ [] ∨ url.query ≠ [] ∨ url.fragment ≠ [] then
    .error (.value "Invalid EPUB resource path.")
  else
    let path := Posix.normpath (Posix.join (Posix.dirname base.toList) (Posix.unquote url.path))
    if path.head? = some '/' ∨ Posix.hasParent path ∨
      '\\' ∈ path then .error (.value "Invalid EPUB resource path.")
    else .ok (.ofList path)

/-- What the checks of a directory refuse of an entry, the names before it given. -/
def Member.Refused (names : List String) (info : Member) : Prop :=
  info.filename ∈ names ∨ info.filename.toList.head? = some '/' ∨ Posix.hasParent info.filename.toList ∨
    '\\' ∈ info.filename.toList ∨ info.encrypted ∨ info.fileSize > 32 * 1024 * 1024 ∨
    info.fileSize > max 1 info.compressSize * 100

instance (names : List String) (info : Member) : Decidable (info.Refused names) :=
  inferInstanceAs (Decidable (info.filename ∈ names ∨ info.filename.toList.head? = some '/' ∨
    Posix.hasParent info.filename.toList ∨ '\\' ∈ info.filename.toList ∨ info.encrypted ∨
    info.fileSize > 32 * 1024 * 1024 ∨ info.fileSize > max 1 info.compressSize * 100))

def checkEntries (names : List String) : List Member → Except Failure Unit
  | [] => .ok ()
  | info :: entries =>
    if info.Refused names then .error (.value "Invalid EPUB archive.")
    else checkEntries (info.filename :: names) entries

/-- `archive.getinfo(name)`. -/
def getInfo (archive : List Member) (name : String) : Except Failure Member :=
  match archive.find? (·.filename = name) with
  | none => .error (.key name)
  | some info => .ok info

def read (archive : List Member) (name : String) : Except Failure Bytes := do
  let info ← getInfo archive name
  info.content

/-- `e.attrib[name]`. -/
def getItem (e : Tagged) (name : String) : Except Failure String :=
  match e.get name with
  | none => .error (.key name)
  | some value => .ok value

/-- The path of the package document, as the container tells it. -/
def rootfilePath (container : Element) : Except Failure String :=
  match container.iter.find? (·.localName = "rootfile") with
  | none => .error .stopIteration
  | some rootfile => do resolve "" (← getItem rootfile "full-path")

/-- `_package`. -/
def Libraries.package (lib : Libraries) (entries : List Member) : Except Failure (String × Element) := do
  if entries.length > 10000 ∨ (entries.map (·.fileSize)).sum > 128 * 1024 * 1024 then
    throw (.value "EPUB archive is too large.")
  checkEntries [] entries
  let container ← lib.fromstring (← read entries "META-INF/container.xml")
  let path ← rootfilePath container
  let document ← lib.fromstring (← read entries path)
  return (path, document)

/-- `str.split()`. -/
def words (text : String) : List String :=
  ((text.toList.splitOnP Jobs.isSpace).filter (· ≠ [])).map .ofList

/-- `" ".join(words)`. -/
def unwords (words : List String) : String := .ofList ([' '].intercalate (words.map String.toList))

/-- The tokens of the attribute `properties`. -/
def properties (e : Tagged) : List String := words ((e.get "properties").getD "")

/-- What the reader takes for the cover, the contents of the elements named `cover` given. -/
def declares (ids : List (Option String)) (e : Tagged) : Bool :=
  e.localName = "item" ∧ ("cover-image" ∈ properties e ∨ e.get "id" ∈ ids)

def coverIds (elements : List Tagged) : List (Option String) :=
  (elements.filter (·.get "name" = some "cover")).map (·.get "content")

def readCover (lib : Libraries) (source : Bytes) : Except Failure (Option (Bytes × String)) := do
  let archive ← lib.unzip source
  let (path, document) ← lib.package archive
  match document.iter.find? (declares (coverIds document.iter)) with
  | none => return none
  | some item => do
    let name ← resolve path (← getItem item "href")
    let info ← getInfo archive name
    if info.fileSize > maxCoverBytes then throw (.value "Cover is too large.")
    let payload ← info.content
    return some (payload, ← imageType payload)

/-- The token `cover-image` taken from the properties of an item. -/
def undeclare (e : Tagged) : Tagged :=
  if "cover-image" ∈ properties e then e.set "properties"
    (unwords ((properties e).filter (· ≠ "cover-image"))) else e

def coverItem (identifier filename mediaType : String) : Tagged :=
  ⟨opf "item", [("id", identifier), ("href", filename), ("media-type", mediaType),
    ("properties", "cover-image")]⟩

def coverMeta (identifier : String) : Tagged := ⟨opf "meta", [("name", "cover"), ("content", identifier)]⟩

/-- The manifest with its declarations taken away and the item of the new cover. -/
def rewriteManifest (item : Tagged) (manifest : Element) : Element :=
  (manifest.withChildren (·.map (Element.withHead undeclare))).subElement item

def rewriteMetadata (cover : Tagged) (metadata : Element) : Element :=
  (metadata.withChildren (·.filter (·.head.get "name" ≠ some "cover"))).subElement cover

def rewrite (item cover : Tagged) (document : Element) : Element :=
  (document.update (opf "manifest") (rewriteManifest item)).update (opf "metadata") (rewriteMetadata cover)

/-- `f"kenkui-cover-{uuid4().hex}"`. -/
def identifier (hex : String) : String := "kenkui-cover-" ++ hex

def filename (hex mediaType : String) : String :=
  identifier hex ++ if mediaType = "image/png" then ".png" else ".jpg"

/-- The package document that declares the new cover. -/
def covered (hex mediaType : String) (document : Element) : Element :=
  rewrite (coverItem (identifier hex) (filename hex mediaType) mediaType)
    (coverMeta (identifier hex)) document

/-- What is written of a member of the source. -/
def copy (lib : Libraries) (archive : List Member) (path : String) (document : Element) (member : Member) :
    Except Failure Entry := do
  let data ← (if member.filename = path then .ok (lib.tostring document) else read archive member.filename)
  return ⟨member.filename, member.compressType, data⟩

/-- What is written to the target, in its order. -/
def entries (lib : Libraries) (hex mediaType : String) (archive : List Member) (path : String)
    (document : Element) (payload : Bytes) : Except Failure (List Entry) := do
  let copies ← (archive.filter (·.filename ≠ "mimetype")).mapM
    (copy lib archive path (covered hex mediaType document))
  let name ← resolve path (filename hex mediaType)
  return ⟨"mimetype", 0, "application/epub+zip".toUTF8.toList⟩ :: copies ++ [⟨name, 0, payload⟩]

def replaceCover (lib : Libraries) (hex : String) (source payload : Bytes) : Except Failure Bytes := do
  let mediaType ← imageType payload
  let archive ← lib.unzip source
  let (path, document) ← lib.package archive
  if document.find (opf "manifest") = none ∨ document.find (opf "metadata") = none then
    throw (.value "Invalid EPUB package.")
  return lib.zip (← entries lib hex mediaType archive path document payload)

theorem mapM_ok {α β : Type} {f : α → Except Failure β} {xs : List α} {ys : List β} (h : xs.mapM f = .ok ys) :
    List.Forall₂ (fun x y => f x = .ok y) xs ys := by
  induction xs generalizing ys with
  | nil =>
    cases h
    exact .nil
  | cons x xs ih =>
    rw [List.mapM_cons] at h
    obtain ⟨y, hy, h⟩ := bind_eq_ok.mp h
    obtain ⟨ys', hys, h⟩ := bind_eq_ok.mp h
    cases h
    exact .cons hy (ih hys)

theorem exists_of_forall₂ {α β : Type} {R : α → β → Prop} {xs : List α} {ys : List β}
    (h : List.Forall₂ R xs ys) {x : α} (hx : x ∈ xs) : ∃ y ∈ ys, R x y := by
  induction h with
  | nil => cases hx
  | @cons x' y xs ys hxy _ ih =>
    rcases List.mem_cons.mp hx with rfl | hmem
    · exact ⟨y, List.mem_cons_self, hxy⟩
    · obtain ⟨y', hy', hrelated⟩ := ih hmem
      exact ⟨y', List.mem_cons_of_mem _ hy', hrelated⟩

theorem find?_of_nodup {α β : Type} [DecidableEq β] {key : α → β} {xs : List α}
    (hnodup : (xs.map key).Nodup) {x : α} (h : x ∈ xs) : xs.find? (key · = key x) = some x := by
  induction xs with
  | nil => cases h
  | cons first xs ih =>
    rw [List.map_cons, List.nodup_cons] at hnodup
    rcases List.mem_cons.mp h with rfl | hmem
    · simp
    · have hne : key first ≠ key x := by
        intro hsame
        exact hnodup.1 (hsame ▸ List.mem_map_of_mem hmem)
      rw [List.find?_cons_of_neg (by simpa using hne)]
      exact ih hnodup.2 hmem

section
variable {archive : List Member} {names : List String}

theorem checkEntries_ok : checkEntries names archive = .ok () ↔
    (archive.map (·.filename)).Nodup ∧ ∀ info ∈ archive, ¬ info.Refused names := by
  induction archive generalizing names with
  | nil => simp [checkEntries]
  | cons info archive ih =>
    have hrefused : ∀ other : Member, other.Refused (info.filename :: names) ↔
        other.filename = info.filename ∨ other.Refused names := by
      intro other
      simp only [Member.Refused, List.mem_cons, or_assoc]
    unfold checkEntries
    split_ifs with hfirst
    · simp [hfirst]
    · rw [ih]
      simp only [hrefused, not_or, List.map_cons, List.nodup_cons, List.mem_map, List.mem_cons,
        forall_eq_or_imp, not_exists, not_and]
      constructor
      · rintro ⟨hnodup, hrest⟩
        exact ⟨⟨fun other hother => (hrest other hother).1, hnodup⟩, hfirst, fun other hother =>
          (hrest other hother).2⟩
      · rintro ⟨⟨hother, hnodup⟩, -, hrest⟩
        exact ⟨hnodup, fun other hmem => ⟨hother other hmem, hrest other hmem⟩⟩

theorem getInfo_mem (hnodup : (archive.map (·.filename)).Nodup) {member : Member} (h : member ∈ archive) :
    getInfo archive member.filename = .ok member := by
  unfold getInfo
  rw [find?_of_nodup hnodup h]

theorem getInfo_ok {name : String} {info : Member} (h : getInfo archive name = .ok info) :
    info ∈ archive ∧ info.filename = name := by
  unfold getInfo at h
  split at h
  · cases h
  · rename_i found hfound
    cases h
    exact ⟨List.mem_of_find?_eq_some hfound, by simpa using List.find?_some hfound⟩

theorem read_mem (hnodup : (archive.map (·.filename)).Nodup) {member : Member} (h : member ∈ archive) :
    read archive member.filename = member.content := by
  unfold read
  rw [getInfo_mem hnodup h]
  rfl

/-- What `_package` found. -/
structure Packaged (lib : Libraries) (archive : List Member) (path : String) (document : Element) : Prop where
  count : archive.length ≤ 10000
  total : (archive.map (·.fileSize)).sum ≤ 128 * 1024 * 1024
  nodup : (archive.map (·.filename)).Nodup
  checked : ∀ info ∈ archive, ¬ info.Refused []
  container : ∃ data container, read archive "META-INF/container.xml" = .ok data ∧
    lib.fromstring data = .ok container ∧
    rootfilePath container = .ok path
  document : ∃ data, read archive path = .ok data ∧ lib.fromstring data = .ok document

theorem package_ok {lib : Libraries} {path : String} {document : Element} :
    lib.package archive = .ok (path, document) ↔ Packaged lib archive path document := by
  constructor
  · intro h
    unfold Libraries.package at h
    split_ifs at h with hlarge
    · cases h
    simp only [not_or, not_lt] at hlarge
    obtain ⟨u, hchecked, h⟩ := bind_eq_ok.mp h
    obtain ⟨data, hdata, h⟩ := bind_eq_ok.mp h
    obtain ⟨container, hcontainer, h⟩ := bind_eq_ok.mp h
    obtain ⟨found, hfound, h⟩ := bind_eq_ok.mp h
    obtain ⟨raw, hraw, h⟩ := bind_eq_ok.mp h
    obtain ⟨parsed, hparsed, h⟩ := bind_eq_ok.mp h
    cases h
    obtain ⟨hnodup, hrefused⟩ := checkEntries_ok.mp hchecked
    exact ⟨hlarge.1, hlarge.2, hnodup, hrefused, ⟨data, container, hdata, hcontainer, hfound⟩,
      raw, hraw, hparsed⟩
  · rintro ⟨hcount, htotal, hnodup, hrefused, ⟨data, container, hdata, hcontainer, hfound⟩,
      raw, hraw, hparsed⟩
    have hlarge : ¬ (archive.length > 10000 ∨ (archive.map (·.fileSize)).sum > 128 * 1024 * 1024) := by omega
    have hchecked : checkEntries [] archive = .ok () := checkEntries_ok.mpr ⟨hnodup, hrefused⟩
    unfold Libraries.package
    rw [if_neg hlarge]
    simp only [Bind.bind, Except.bind, pure, Except.pure, hchecked, hdata, hcontainer, hfound, hraw, hparsed]

end

section
open Jobs

theorem words_unwords {tokens : List String} (h : ∀ token ∈ tokens, token ≠ "" ∧
    ∀ c ∈ token.toList, isSpace c = false) :
    words (unwords tokens) = tokens := by
  have hsplit : ∀ tokens : List String, (∀ token ∈ tokens, token ≠ "" ∧
      ∀ c ∈ token.toList, isSpace c = false) →
      (([' '].intercalate (tokens.map String.toList)).splitOnP isSpace).filter (· ≠ []) =
        tokens.map String.toList := by
    intro tokens
    induction tokens with
    | nil => decide
    | cons token tokens ih =>
      intro htokens
      obtain ⟨⟨hnonempty, hplain⟩, htokens⟩ := List.forall_mem_cons.mp htokens
      have hlist : token.toList ≠ [] := by simpa using hnonempty
      rw [List.map_cons]
      rcases tokens with _ | ⟨next, tokens⟩
      · rw [List.map_nil, List.intercalate_singleton, List.splitOnP_eq_singleton hplain]
        simp [hlist]
      · rw [List.intercalate_cons_of_ne_nil (by simp), List.append_assoc, List.singleton_append,
          List.splitOnP_append_cons_of_forall_mem hplain ' ' (by decide),
          List.filter_cons_of_pos (by simpa using hlist), ih htokens]
  unfold words unwords
  rw [String.toList_ofList, hsplit tokens h, List.map_map]
  simp [Function.comp_def]

theorem words_plain {text token : String} (h : token ∈ words text) :
    token ≠ "" ∧ ∀ c ∈ token.toList, isSpace c = false := by
  unfold words at h
  obtain ⟨chars, hchars, rfl⟩ := List.mem_map.mp h
  obtain ⟨hmem, hnonempty⟩ := List.mem_filter.mp hchars
  have hplain : ∀ (xs : List Char) (part : List Char), part ∈ xs.splitOnP isSpace →
      ∀ c ∈ part, isSpace c = false := by
    intro xs
    induction xs with
    | nil =>
      intro part hpart c hc
      rw [List.splitOnP_nil, List.mem_singleton] at hpart
      rw [hpart] at hc
      cases hc
    | cons x xs ih =>
      intro part hpart c hc
      rw [List.splitOnP_cons_eq_if_modifyHead] at hpart
      split_ifs at hpart with hx
      · rcases List.mem_cons.mp hpart with rfl | hrest
        · cases hc
        · exact ih part hrest c hc
      · obtain ⟨first, rest, hparts⟩ := List.exists_cons_of_ne_nil (List.splitOnP_ne_nil isSpace xs)
        rw [hparts, List.modifyHead_cons] at hpart
        rcases List.mem_cons.mp hpart with rfl | hrest
        · rcases List.mem_cons.mp hc with rfl | hcc
          · simpa using hx
          · exact ih first (by rw [hparts]; exact List.mem_cons_self) c hcc
        · exact ih part (by rw [hparts]; exact List.mem_cons_of_mem _ hrest) c hc
  rw [String.toList_ofList]
  exact ⟨by simpa using hnonempty, hplain text.toList chars hmem⟩

end

/-- An item with the token `cover-image` gone from its properties. -/
structure Undeclared (e e' : Tagged) : Prop where
  tag : e'.tag = e.tag
  names : e'.attrib.map (·.1) = e.attrib.map (·.1)
  others : ∀ name, name ≠ "properties" → e'.get name = e.get name
  tokens : properties e' = (properties e).filter (· ≠ "cover-image")
  kept : "cover-image" ∉ properties e → e' = e

theorem undeclared (e : Tagged) : Undeclared e (undeclare e) := by
  unfold undeclare
  split_ifs with hdeclared
  · have hget : ∀ (attrib : List (String × String)) (value name : String),
        (attrib.map fun entry =>
            if entry.1 = "properties" then ("properties", value) else entry).lookup name =
          if name = "properties" then (attrib.lookup name).map fun _ => value else attrib.lookup name := by
      intro attrib value name
      induction attrib with
      | nil => simp
      | cons entry attrib ih =>
        obtain ⟨key, old⟩ := entry
        rw [List.map_cons, List.lookup_cons, List.lookup_cons]
        by_cases hkey : key = "properties"
        · subst hkey
          by_cases hname : name = "properties"
          · simp [hname]
          · have hbool : (name == "properties") = false := by simpa using hname
            simp [hbool, hname, ih]
        · simp only [if_neg hkey]
          by_cases hsame : name = key
          · subst hsame
            simp [hkey]
          · have hbool : (name == key) = false := by simpa using hsame
            simp [hbool, ih]
    obtain ⟨old, hold⟩ : ∃ old, e.get "properties" = some old := by
      cases hproperties : e.get "properties" with
      | none =>
        simp only [properties, hproperties, Option.getD_none] at hdeclared
        exact absurd hdeclared (by decide)
      | some old => exact ⟨old, rfl⟩
    refine ⟨rfl, ?_, ?_, ?_, fun hkept => absurd hdeclared hkept⟩
    · simp only [Tagged.set, List.map_map]
      refine List.map_congr_left fun entry _ => ?_
      simp only [Function.comp_apply]
      split_ifs with hkey
      · exact hkey.symm
      · rfl
    · intro name hname
      exact (hget e.attrib _ name).trans (if_neg hname)
    · have hset : (e.set "properties" (unwords ((properties e).filter (· ≠ "cover-image")))).get
          "properties" =
          some (unwords ((properties e).filter (· ≠ "cover-image"))) := by
        refine (hget e.attrib _ "properties").trans ?_
        have hlookup : e.attrib.lookup "properties" = some old := hold
        rw [if_pos rfl, hlookup, Option.map_some]
      have hwords : ∀ token ∈ (properties e).filter (· ≠ "cover-image"),
          token ≠ "" ∧ ∀ c ∈ token.toList, Jobs.isSpace c = false :=
        fun token htoken => words_plain (List.mem_of_mem_filter htoken)
      have hread := words_unwords hwords
      rw [properties, hset, Option.getD_some, hread]
  · refine ⟨rfl, rfl, fun _ _ => rfl, ?_, fun _ => rfl⟩
    rw [List.filter_eq_self.mpr]
    intro token htoken
    have hne : token ≠ "cover-image" := by
      rintro rfl
      exact hdeclared htoken
    simpa using hne

/-- What `uuid4().hex` is written in. -/
def IsHex (hex : String) : Prop := ∀ c ∈ hex.toList, c ∈ "0123456789abcdef".toList

/-- A document and the one that declares another cover: below its root, two children differ. In the manifest
the declarations are gone and an item is appended, in the metadata the elements named `cover` are gone and
one is appended. -/
def CoverReplaced (item cover : Tagged) (document document' : Element) : Prop :=
  ∃ i j manifest metadata items, i ≠ j ∧ document.children[i]? = some manifest ∧
    manifest.head.tag = opf "manifest" ∧
    document.children[j]? = some metadata ∧ metadata.head.tag = opf "metadata" ∧
    List.Forall₂ (fun old new => Undeclared old.head new.head ∧ new = old.withHead fun _ => new.head)
      manifest.children items ∧
    document' = document.withChildren fun children =>
      (children.set i (manifest.withChildren fun _ => items ++ [.node item none none []])).set j
        (metadata.withChildren fun old =>
          old.filter (·.head.get "name" ≠ some "cover") ++ [.node cover none none []])

/-- What is written: the type, the other members of the source as they were but for the package document, the
cover. -/
structure Written (lib : Libraries) (hex : String) (archive : List Member) (path : String)
    (document' : Element) (payload : Bytes) (copies : List Entry) (name : String) : Prop where
  copied : List.Forall₂ (fun member copy => copy.filename = member.filename ∧
    copy.compressType = member.compressType ∧
    (member.filename = path → copy.data = lib.tostring document') ∧
    (member.filename ≠ path → member.content = .ok copy.data))
      (archive.filter (·.filename ≠ "mimetype")) copies
  fresh : name ∉ archive.map (·.filename)
  nodup : ("mimetype" :: copies.map (·.filename) ++ [name]).Nodup

section
variable {lib : Libraries} {hex mediaType path : String} {archive : List Member} {document : Element}
  {source payload output : Bytes}

theorem replaceCover_ok (h : replaceCover lib hex source payload = .ok output) :
    ∃ mediaType archive path document written manifest metadata, imageType payload = .ok mediaType ∧
      lib.unzip source = .ok archive ∧ Packaged lib archive path document ∧
      document.find (opf "manifest") = some manifest ∧ document.find (opf "metadata") = some metadata ∧
      entries lib hex mediaType archive path document payload = .ok written ∧ output = lib.zip written := by
  unfold replaceCover at h
  obtain ⟨mediaType, htype, h⟩ := bind_eq_ok.mp h
  obtain ⟨archive, harchive, h⟩ := bind_eq_ok.mp h
  obtain ⟨⟨path, document⟩, hpackage, h⟩ := bind_eq_ok.mp h
  simp only at h
  split_ifs at h with hmissing
  · cases h
  obtain ⟨written, hwritten, h⟩ := bind_eq_ok.mp h
  cases h
  simp only [not_or] at hmissing
  obtain ⟨manifest, hmanifest⟩ := Option.ne_none_iff_exists'.mp hmissing.1
  obtain ⟨metadata, hmetadata⟩ := Option.ne_none_iff_exists'.mp hmissing.2
  exact ⟨mediaType, archive, path, document, written, manifest, metadata, htype, harchive,
    package_ok.mp hpackage, hmanifest, hmetadata, hwritten, rfl⟩

theorem plain_of_all (chars : List Char)
    (h : (chars.all fun c => 32 < c.val ∧ c ∉ [':', '/', '?', '#', '%']) = true) :
    ∀ c ∈ chars, 32 < c.val ∧ c ∉ [':', '/', '?', '#', '%'] := by
  intro c hc
  exact of_decide_eq_true (List.all_eq_true.mp h c hc)

theorem filename_plain (h : IsHex hex) (mediaType : String) :
    Posix.Plain (filename hex mediaType).toList := by
  have hchars : (filename hex mediaType).toList = 'k' :: "enkui-cover-".toList ++ hex.toList ++
      (if mediaType = "image/png" then ".png" else ".jpg").toList := by
    unfold filename identifier
    rw [String.toList_append, String.toList_append]
    rfl
  constructor
  · intro c hc
    rw [hchars] at hc
    rcases List.mem_append.mp hc with hc | hc
    · rcases List.mem_append.mp hc with hc | hc
      · exact plain_of_all ('k' :: "enkui-cover-".toList) (by decide +kernel) c hc
      · exact plain_of_all "0123456789abcdef".toList (by decide +kernel) c (h c hc)
    · split_ifs at hc
      · exact plain_of_all ".png".toList (by decide +kernel) c hc
      · exact plain_of_all ".jpg".toList (by decide +kernel) c hc
  · simp [hchars]
  · simp [hchars]
  · simp [hchars]

/-- The cover is written beside the package document, under its file name. -/
theorem resolve_filename (h : IsHex hex) {name : String}
    (hname : resolve path (filename hex mediaType) = .ok name) :
    (identifier hex).toList <:+: name.toList := by
  have hplain := filename_plain h mediaType
  obtain ⟨front, hfront⟩ := hplain.normpath_join path.toList
  have hname : name = .ofList (front ++ (filename hex mediaType).toList) := by
    unfold resolve at hname
    simp only [hplain.urlsplit, hplain.unquote, hfront] at hname
    split_ifs at hname
    exact (Except.ok.inj hname).symm
  rw [hname, String.toList_ofList]
  unfold filename
  rw [String.toList_append]
  exact ⟨front, _, List.append_assoc _ _ _⟩

theorem copy_ok {document' : Element} (hnodup : (archive.map (·.filename)).Nodup) {member : Member}
    (hmem : member ∈ archive) {entry : Entry} (h : copy lib archive path document' member = .ok entry) :
    entry.filename = member.filename ∧ entry.compressType = member.compressType ∧
      (member.filename = path → entry.data = lib.tostring document') ∧
      (member.filename ≠ path → member.content = .ok entry.data) := by
  unfold copy at h
  obtain ⟨data, hdata, h⟩ := bind_eq_ok.mp h
  cases h
  refine ⟨rfl, rfl, fun hpath => ?_, fun hpath => ?_⟩
  · rw [if_pos hpath] at hdata
    exact (Except.ok.inj hdata).symm
  · rw [if_neg hpath, read_mem hnodup hmem] at hdata
    exact hdata

theorem names_copied {members : List Member} {copies : List Entry} {P : Member → Entry → Prop}
    (h : List.Forall₂ (fun member copy => copy.filename = member.filename ∧ P member copy) members copies) :
    copies.map (·.filename) = members.map (·.filename) := by
  rw [← List.forall₂_eq_eq_eq, List.forall₂_map_left_iff, List.forall₂_map_right_iff]
  exact h.flip.imp fun entry member hentry => hentry.1

theorem entries_ok {written : List Entry}
    (h : entries lib hex mediaType archive path document payload = .ok written)
    (hnodup : (archive.map (·.filename)).Nodup) (hhex : IsHex hex)
    (hfresh : ∀ member ∈ archive, ¬ (identifier hex).toList <:+: member.filename.toList) :
    ∃ copies name, resolve path (filename hex mediaType) = .ok name ∧
      written = ⟨"mimetype", 0, "application/epub+zip".toUTF8.toList⟩ :: copies ++ [⟨name, 0, payload⟩] ∧
      Written lib hex archive path (covered hex mediaType document) payload copies name := by
  obtain ⟨copies, hcopies, h⟩ := bind_eq_ok.mp h
  obtain ⟨name, hname, h⟩ := bind_eq_ok.mp h
  cases h
  have hidentifier := resolve_filename hhex hname
  have hnew : name ∉ archive.map (·.filename) := by
    intro hmem
    obtain ⟨member, hmember, rfl⟩ := List.mem_map.mp hmem
    exact hfresh member hmember hidentifier
  have hcopied : List.Forall₂ (fun member copy => copy.filename = member.filename ∧
      copy.compressType = member.compressType ∧
      (member.filename = path → copy.data = lib.tostring (covered hex mediaType document)) ∧
      (member.filename ≠ path → member.content = .ok copy.data))
        (archive.filter (·.filename ≠ "mimetype")) copies := by
    have hmem : ∀ member ∈ archive.filter (·.filename ≠ "mimetype"), member ∈ archive :=
      fun member hmember => List.mem_of_mem_filter hmember
    have hboth := (List.forall₂_and_left _ _).mpr ⟨hmem, mapM_ok hcopies⟩
    exact hboth.imp fun member entry hentry => copy_ok hnodup hentry.1 hentry.2
  have hnames := names_copied hcopied
  refine ⟨copies, name, hname, rfl, hcopied, hnew, ?_⟩
  have hcopies : (copies.map (·.filename)).Nodup := by
    rw [hnames]
    exact hnodup.sublist (List.filter_sublist.map _)
  have hmimetype : "mimetype" ∉ copies.map (·.filename) := by
    rw [hnames]
    simp
  have hlength : name ≠ "mimetype" := by
    rintro rfl
    have hle := hidentifier.length_le
    have hlong : 13 ≤ (identifier hex).toList.length := by
      unfold identifier
      rw [String.toList_append, List.length_append]
      have hprefix : "kenkui-cover-".toList.length = 13 := rfl
      omega
    have hshort : "mimetype".toList.length = 8 := rfl
    omega
  have hlast : name ∉ copies.map (·.filename) := by
    rw [hnames]
    intro hmem
    obtain ⟨member, hmember, hsame⟩ := List.mem_map.mp hmem
    exact hnew (hsame ▸ List.mem_map_of_mem (List.mem_of_mem_filter hmember))
  rw [List.cons_append, List.nodup_cons, List.nodup_append]
  refine ⟨?_, hcopies, List.nodup_singleton _, ?_⟩
  · rw [List.mem_append, List.mem_singleton, not_or]
    exact ⟨hmimetype, hlength.symm⟩
  · intro a ha b hb hab
    rw [List.mem_singleton] at hb
    exact hlast (hb ▸ hab ▸ ha)

/-- The package document that is written differs in the declaration of the cover only. -/
theorem covered_replaced {manifest metadata : Element}
    (hmanifest : document.find (opf "manifest") = some manifest)
    (hmetadata : document.find (opf "metadata") = some metadata) :
    CoverReplaced (coverItem (identifier hex) (filename hex mediaType) mediaType)
      (coverMeta (identifier hex)) document
      (covered hex mediaType document) := by
  obtain ⟨head, text, tail, children⟩ := document
  have hne : opf "metadata" ≠ opf "manifest" := by decide
  have hkept : ∀ e, (rewriteManifest (coverItem (identifier hex) (filename hex mediaType) mediaType)
      e).head.tag = e.head.tag := by
    intro e
    cases e
    rfl
  obtain ⟨i, hi, hfirst⟩ : ∃ i, children[i]? = some manifest ∧
      ∀ g, Element.updateFirst (opf "manifest") g children = children.set i (g manifest) :=
        Element.updateFirst_set hmanifest
  have hmetadata' := (Element.find?_updateFirst hne hkept children).trans hmetadata
  obtain ⟨j, hj, hsecond⟩ := Element.updateFirst_set hmetadata'
  have htag : manifest.head.tag = opf "manifest" := by simpa using List.find?_some hmanifest
  have htag' : metadata.head.tag = opf "metadata" := by simpa using List.find?_some hmetadata
  rw [hfirst] at hj hsecond
  have hij : i ≠ j := by
    rintro rfl
    have hlength : i < children.length := (List.getElem?_eq_some_iff.mp hi).1
    rw [List.getElem?_set_self hlength] at hj
    have htags := congrArg (fun e => e.head.tag) (Option.some.inj hj)
    simp only [hkept, htag, htag'] at htags
    exact hne htags.symm
  rw [List.getElem?_set_ne hij] at hj
  refine ⟨i, j, manifest, metadata, manifest.children.map (Element.withHead undeclare), hij, hi, htag,
    hj, htag', ?_, ?_⟩
  · rw [List.forall₂_map_right_iff, List.forall₂_same]
    intro e _
    obtain ⟨head, text, tail, children⟩ := e
    exact ⟨undeclared head, rfl⟩
  · have hchildren : (covered hex mediaType (.node head text tail children)) = .node head text tail
        (Element.updateFirst (opf "metadata") (rewriteMetadata (coverMeta (identifier hex)))
          (Element.updateFirst (opf "manifest")
            (rewriteManifest (coverItem (identifier hex) (filename hex mediaType) mediaType)) children)) :=
              rfl
    rw [hchildren, hfirst, hsecond]
    obtain ⟨manifestHead, manifestText, manifestTail, manifestChildren⟩ := manifest
    obtain ⟨metadataHead, metadataText, metadataTail, metadataChildren⟩ := metadata
    rfl

/-- What a replacement did, its source taken apart. -/
theorem replaceCover_written (h : replaceCover lib hex source payload = .ok output)
    (harchive : lib.unzip source = .ok archive) (hpackage : lib.package archive = .ok (path, document))
    (htype : imageType payload = .ok mediaType) :
    ∃ written manifest metadata, document.find (opf "manifest") = some manifest ∧
      document.find (opf "metadata") = some metadata ∧
      entries lib hex mediaType archive path document payload = .ok written ∧ output = lib.zip written := by
  obtain ⟨mediaType', archive', path', document', written, manifest, metadata, htype', harchive',
    hpackaged, hmanifest, hmetadata, hwritten, houtput⟩ := replaceCover_ok h
  obtain rfl : mediaType' = mediaType := Except.ok.inj (htype'.symm.trans htype)
  obtain rfl : archive' = archive := Except.ok.inj (harchive'.symm.trans harchive)
  have hsame := Except.ok.inj ((package_ok.mpr hpackaged).symm.trans hpackage)
  cases hsame
  exact ⟨written, manifest, metadata, hmanifest, hmetadata, hwritten, houtput⟩

theorem Written.copy {document' : Element} {copies : List Entry} {name : String}
    (h : Written lib hex archive path document' payload copies name) {member : Member}
    (hmem : member ∈ archive) (hname : member.filename ≠ "mimetype") :
    ∃ entry ∈ copies, entry.filename = member.filename ∧ entry.compressType = member.compressType ∧
      (member.filename = path → entry.data = lib.tostring document') ∧
      (member.filename ≠ path → member.content = .ok entry.data) := by
  have hkept : member ∈ archive.filter (·.filename ≠ "mimetype") := by
    rw [List.mem_filter]
    exact ⟨hmem, by simpa using hname⟩
  exact exists_of_forall₂ h.copied hkept

theorem Written.names {document' : Element} {copies : List Entry} {name : String}
    (h : Written lib hex archive path document' payload copies name) :
    copies.map (·.filename) = (archive.filter (·.filename ≠ "mimetype")).map (·.filename) :=
  names_copied h.copied

theorem read_stored {written : List Entry} (hnodup : (written.map (·.filename)).Nodup) {entry : Entry}
    (h : entry ∈ written) :
    read (written.map lib.stored) entry.filename = .ok entry.data := by
  have hnames : ((written.map lib.stored).map (·.filename)).Nodup := by
    rwa [List.map_map]
  exact read_mem hnames (List.mem_map_of_mem h)

/-- An archive and the one that differs in its cover. -/
structure CoverOnly (lib : Libraries) (archive archive' : List Member) (path name : String)
    (item cover : Tagged) (document document' : Element) (payload : Bytes) : Prop where
  mimetype : archive'.head? = some (lib.stored ⟨"mimetype", 0, "application/epub+zip".toUTF8.toList⟩)
  members : archive'.map (·.filename) =
    "mimetype" :: (archive.filter (·.filename ≠ "mimetype")).map (·.filename) ++ [name]
  once : (archive'.map (·.filename)).Nodup
  kept : ∀ member ∈ archive, member.filename ≠ "mimetype" → member.filename ≠ path →
    read archive' member.filename = member.content
  fresh : name ∉ archive.map (·.filename)
  payload : read archive' name = .ok payload
  package : ∃ data, read archive' path = .ok data ∧ lib.fromstring data = .ok document'
  tree : CoverReplaced item cover document document'

/-- A replacement touches nothing but the cover. -/
theorem replaceCover_frame (hhex : IsHex hex) (h : replaceCover lib hex source payload = .ok output)
    (harchive : lib.unzip source = .ok archive) (hpackage : lib.package archive = .ok (path, document))
    (htype : imageType payload = .ok mediaType) (hpath : path ≠ "mimetype")
    (hfresh : ∀ member ∈ archive, ¬ (identifier hex).toList <:+: member.filename.toList)
    (hzip : ∀ written, entries lib hex mediaType archive path document payload = .ok written →
      lib.unzip (lib.zip written) = .ok (written.map lib.stored))
    (hxml : lib.fromstring (lib.tostring (covered hex mediaType document)) =
      .ok (covered hex mediaType document)) :
    ∃ archive' name, lib.unzip output = .ok archive' ∧
      CoverOnly lib archive archive' path name (coverItem (identifier hex) (filename hex mediaType) mediaType)
        (coverMeta (identifier hex)) document (covered hex mediaType document) payload := by
  obtain ⟨written, manifest, metadata, hmanifest, hmetadata, hwritten, rfl⟩ :=
    replaceCover_written h harchive hpackage htype
  have hpackaged := package_ok.mp hpackage
  obtain ⟨copies, name, -, hparts, hframe⟩ := entries_ok hwritten hpackaged.nodup hhex hfresh
  have hnodup : (written.map (·.filename)).Nodup := by
    have hframed := hframe.nodup
    rw [hparts]
    simpa using hframed
  have hcopies : ∀ entry ∈ copies, entry ∈ written := by
    intro entry hentry
    rw [hparts]
    exact List.mem_append_left _ (List.mem_cons_of_mem _ hentry)
  refine ⟨written.map lib.stored, name, hzip written hwritten, ?_⟩
  constructor
  case mimetype =>
    rw [hparts]
    rfl
  case members =>
    rw [← hframe.names, hparts]
    simp [Libraries.stored]
  case once => rwa [List.map_map]
  case kept =>
    intro member hmember hname hother
    obtain ⟨entry, hentry, hfilename, -, -, hdata⟩ := hframe.copy hmember hname
    rw [hdata hother, ← hfilename]
    exact read_stored hnodup (hcopies entry hentry)
  case fresh => exact hframe.fresh
  case payload =>
    have hlast : (⟨name, 0, payload⟩ : Entry) ∈ written := by
      rw [hparts]
      exact List.mem_append_right _ List.mem_cons_self
    exact read_stored hnodup hlast
  case package =>
    obtain ⟨raw, hraw, -⟩ := hpackaged.document
    obtain ⟨member, hmember, -⟩ := bind_eq_ok.mp hraw
    obtain ⟨hmem, rfl⟩ := getInfo_ok hmember
    obtain ⟨entry, hentry, hfilename, -, hdata, -⟩ := hframe.copy hmem hpath
    have hread : read (written.map lib.stored) entry.filename = .ok entry.data :=
      read_stored hnodup (hcopies entry hentry)
    rw [hfilename, hdata rfl] at hread
    exact ⟨_, hread, hxml⟩
  case tree => exact covered_replaced hmanifest hmetadata

end

/-- The bytes of a text in ASCII. -/
def ascii (text : List Char) : Bytes := text.map fun c => UInt8.ofNat c.toNat

/-- The prefix that `ElementTree` gives to a namespace, after so many others. -/
def namespaceAlias (uri : List Char) (count : ℕ) : List Char :=
  if uri = "http://www.w3.org/1999/xhtml".toList then "html".toList
  else if uri = "http://purl.org/dc/elements/1.1/".toList then "dc".toList
  else 'n' :: 's' :: Nat.toDigits 10 count

def namespaceOf (tag : String) : List Char := (tag.toList.drop 1).takeWhile (· ≠ '}')

/-- The namespaces of a document with their prefixes, as they are met. -/
def namespaces (root : Element) : List (List Char × List Char) :=
  root.iter.foldl (fun known e =>
    if (known.lookup (namespaceOf e.tag)).isSome then known
    else known ++ [(namespaceOf e.tag, namespaceAlias (namespaceOf e.tag) known.length)]) []

def writeAttribute (key value : List Char) : List Char := ' ' :: key ++ '=' :: '"' :: value ++ ['"']

mutual

/-- `_serialize_xml` of texts that have nothing to escape. -/
def serialize (known : List (List Char × List Char)) (declared : List Char) : Element → List Char
  | .node head text tail children =>
    let tag := (known.lookup (namespaceOf head.tag)).getD [] ++ ':' :: head.localName.toList
    let start := '<' :: tag ++ declared ++ head.attrib.flatMap fun entry =>
      writeAttribute entry.1.toList entry.2.toList
    let inner := (text.getD "").toList ++ serializeAll known children
    (if inner = [] then start ++ " />".toList else start ++ '>' :: inner ++ '<' :: '/' :: tag ++ ['>']) ++
      (tail.getD "").toList

def serializeAll (known : List (List Char × List Char)) : List Element → List Char
  | [] => []
  | e :: rest => serialize known [] e ++ serializeAll known rest

end

/-- `tostring(.., encoding="utf-8", xml_declaration=True)`. -/
def serializeDocument (root : Element) : Bytes :=
  let known := namespaces root
  let sorted := known.insertionSort fun a b => b.2.lex a.2 (·.toNat < ·.toNat) = false
  let declared := sorted.flatMap fun entry => writeAttribute ("xmlns:".toList ++ entry.2) entry.1
  ascii ("<?xml version='1.0' encoding='utf-8'?>\n".toList ++ serialize known declared root)

def crcStep (crc : ℕ) : ℕ := if crc % 2 = 1 then (crc / 2) ^^^ 0xEDB88320 else crc / 2

/-- `zlib.crc32`. -/
def crc32 (data : Bytes) : ℕ :=
  data.foldl (fun crc byte => crcStep^[8] (crc ^^^ byte.toNat)) 0xFFFFFFFF ^^^ 0xFFFFFFFF

/-- A number in its least significant bytes, the lowest first. -/
def littleEndian : ℕ → ℕ → Bytes
  | 0, _ => []
  | width + 1, n => UInt8.ofNat n :: littleEndian width (n / 256)

/-- What the two headers of a stored entry share, of an archive of 2026-01-01. -/
def Entry.header (entry : Entry) : Bytes :=
  littleEndian 2 20 ++ littleEndian 2 0 ++ littleEndian 2 0 ++ littleEndian 2 0 ++ littleEndian 2 0x5C21 ++
    littleEndian 4 (crc32 entry.data) ++ littleEndian 4 entry.data.length ++
    littleEndian 4 entry.data.length ++ littleEndian 2 entry.filename.length ++ littleEndian 2 0

def Entry.localFile (entry : Entry) : Bytes :=
  littleEndian 4 0x04034B50 ++ entry.header ++ ascii entry.filename.toList ++ entry.data

/-- The central directory of entries from an offset on. -/
def directory : ℕ → List Entry → Bytes
  | _, [] => []
  | offset, entry :: rest =>
    littleEndian 4 0x02014B50 ++ [20, 3] ++ entry.header ++ littleEndian 6 0 ++ littleEndian 4 0x01800000 ++
      littleEndian 4 offset ++ ascii entry.filename.toList ++ directory (offset + entry.localFile.length) rest

/-- The archive of stored entries, as `writestr` writes them one after the other. -/
def zipStored (entries : List Entry) : Bytes :=
  let files := entries.flatMap Entry.localFile
  let central := directory 0 entries
  files ++ central ++ littleEndian 4 0x06054B50 ++ littleEndian 4 0 ++ littleEndian 2 entries.length ++
    littleEndian 2 entries.length ++ littleEndian 4 central.length ++ littleEndian 4
      files.length ++ littleEndian 2 0

def leaf (tag : String) (attrib : List (String × String)) : Element := .node ⟨tag, attrib⟩ none none []

def xhtml (name : String) : String := "\x7bhttp://www.w3.org/1999/xhtml\x7d" ++ name

def ocf (name : String) : String := "\x7burn:oasis:names:tc:opendocument:xmlns:container\x7d" ++ name

def sampleHex : String := "3f2b8c6d9e104a57b1c2d3e4f5061728"

def sampleContainer : Element :=
  .node ⟨ocf "container", [("version", "1.0")]⟩ none none
    [.node ⟨ocf "rootfiles", []⟩ none none
      [leaf (ocf "rootfile") [("full-path", "OEBPS/book.opf"),
        ("media-type", "application/oebps-package+xml")]]]

def sampleChapter : Element :=
  .node ⟨xhtml "html", []⟩ none none
    [.node ⟨xhtml "body", []⟩ none none [.node ⟨xhtml "p", []⟩ (some "One.") none []]]

def sampleTitle : Element := .node ⟨"\x7bhttp://purl.org/dc/elements/1.1/\x7dtitle", []⟩
    (some "A Book") none []

def sampleItem : Element :=
  leaf (opf "item") [("id", "c1"), ("href", "c1.xhtml"), ("media-type", "application/xhtml+xml")]

/-- A document with an older cover, declared in both ways. -/
def sampleDocument : Element :=
  .node ⟨opf "package", [("version", "3.0")]⟩ none none
    [.node ⟨opf "metadata", []⟩ none none
      [sampleTitle, leaf (opf "meta") [("name", "cover"), ("content", "old")]],
        .node ⟨opf "manifest", []⟩ none none
        [sampleItem, leaf (opf "item") [("id", "old"), ("href", "old.png"), ("media-type", "image/png"),
          ("properties", "cover-image svg")]]]

def samplePng (fill : UInt8) :
    Bytes := [0x89, 0x50, 0x4E, 0x47, 0x0D, 0x0A, 0x1A, 0x0A] ++ List.replicate 24 fill

def sampleEntries (container document chapter : Bytes) : List Entry :=
  [⟨"mimetype", 0, ascii "application/epub+zip".toList⟩, ⟨"META-INF/container.xml", 0, container⟩,
    ⟨"OEBPS/book.opf", 0, document⟩, ⟨"OEBPS/c1.xhtml", 0, chapter⟩, ⟨"OEBPS/old.png", 0, samplePng 1⟩]

def sampleSource (document : Element) : List Entry :=
  sampleEntries (serializeDocument sampleContainer) (serializeDocument document)
    (serializeDocument sampleChapter)

def sampleCovered (document : Element) : List Entry :=
  sampleSource (covered sampleHex "image/png" document) ++
    [⟨"OEBPS/kenkui-cover-3f2b8c6d9e104a57b1c2d3e4f5061728.png", 0, samplePng 0⟩]

/-- The documents in the two archives. -/
def sampleDocuments (document : Element) : List Element :=
  [sampleContainer, document, sampleChapter, covered sampleHex "image/png" document]

/-- What was written is read back, and nothing else. -/
def readWritten {α : Type} (write : α → Bytes) (known : List α) (failure : String) (data : Bytes) :
    Except Failure α :=
  match known.find? (write · = data) with
  | some found => .ok found
  | none => .error (.unreadable failure)

/-- An entry of a stored archive, as `infolist` has it. -/
def Entry.info (entry : Entry) : Member :=
  ⟨entry.filename, entry.data.length, entry.data.length, false, entry.compressType, .ok entry.data⟩

/-- The libraries as they are on the two archives of a book and on the documents in these. -/
def sampleLibraries (document : Element) : Libraries where
  unzip source :=
    (readWritten zipStored [sampleSource document, sampleCovered document] "BadZipFile" source).map
      (List.map Entry.info)
  zip := zipStored
  -- Every entry of the two is stored as it is.
  deflate _ data := data.length
  fromstring := readWritten serializeDocument (sampleDocuments document) "ParseError"
  tostring := serializeDocument

def sampleArchive (document : Element) : List Member := (sampleSource document).map Entry.info

theorem of_toOption {α : Type} {x : Except Failure α} {a : α} (h : x.toOption = some a) : x = .ok a := by
  cases x with
  | error e => cases h
  | ok a' => exact congrArg Except.ok (Option.some.inj h)

theorem toList_loop (bytes : ByteArray) (i : ℕ) (read : Bytes) :
    ByteArray.toList.loop bytes i read = read.reverse ++ bytes.data.toList.drop i := by
  fun_induction ByteArray.toList.loop bytes i read with
  | case1 i read h ih =>
    have hi : i < bytes.data.toList.length := h
    have hget : bytes.get! i = bytes.data.toList[i] := by
      show bytes.data[i]! = _
      rw [getElem!_pos bytes.data i h, Array.getElem_toList]
    rw [ih, List.drop_eq_getElem_cons hi, hget]
    simp
  | case2 i read h =>
    have hi : bytes.data.toList.length ≤ i := Nat.le_of_not_lt h
    rw [List.drop_eq_nil_of_le hi, List.append_nil]

theorem media_ascii : "application/epub+zip".toUTF8.toList = ascii "application/epub+zip".toList := by
  unfold ByteArray.toList
  rw [toList_loop]
  rfl

@[simp] theorem littleEndian_length (width n : ℕ) : (littleEndian width n).length = width := by
  induction width generalizing n with
  | zero => rfl
  | succ width ih => rw [littleEndian, List.length_cons, ih]

theorem localFile_length (entry : Entry) :
    entry.localFile.length = 30 + entry.filename.length + entry.data.length := by
  simp only [Entry.localFile, Entry.header, ascii, List.length_append, List.length_map, littleEndian_length,
    String.length_toList]

theorem directory_length (offset : ℕ) (entries : List Entry) :
    (directory offset entries).length = (entries.map fun entry => 46 + entry.filename.length).sum := by
  induction entries generalizing offset with
  | nil => rfl
  | cons entry entries ih =>
    simp only [directory, Entry.header, ascii, List.length_append, List.length_map, littleEndian_length, ih,
      List.map_cons, List.sum_cons, List.length_cons, List.length_nil, String.length_toList]

theorem zipStored_length (entries : List Entry) : (zipStored entries).length =
    (entries.map fun entry => 76 + 2 * entry.filename.length + entry.data.length).sum + 22 := by
  have hsize : ∀ entry : Entry, entry.localFile.length + (46 + entry.filename.length) =
      76 + 2 * entry.filename.length + entry.data.length := by
    intro entry
    rw [localFile_length]
    omega
  have hfiles : (entries.flatMap Entry.localFile).length + (directory 0 entries).length =
      (entries.map fun entry => 76 + 2 * entry.filename.length + entry.data.length).sum := by
    rw [directory_length, List.length_flatMap, ← List.sum_map_add]
    simp only [hsize]
  simp only [zipStored, List.length_append, littleEndian_length]
  omega

/-- Whether the identifier occurs in what the elements say or refer to. -/
def unmentioned (hex : String) (bases : List String) (elements : List Tagged) : Bool :=
  elements.all fun e => e.attrib.all fun entry => entry.2 ≠ identifier hex ∧ bases.all fun base =>
    match resolve base entry.2 with
    | .ok target => !decide ((identifier hex).toList <:+: target.toList)
    | .error _ => true

/-- What the samples have in common: what is written of their documents is of different lengths, and nothing
in them mentions the new cover. -/
structure Sampled (document : Element) (size size' : ℕ) : Prop where
  lengths : (sampleDocuments document).map (fun root => (serializeDocument root).length) =
    [261, size, 148, size']
  increasing : 261 < size ∧ size < size' ∧ size' ≤ 1000
  fresh : ∀ member ∈ sampleArchive document, ¬ (identifier sampleHex).toList <:+: member.filename.toList
  unmentioned : unmentioned sampleHex ("" :: (sampleArchive document).map (·.filename))
    (sampleContainer.iter ++ document.iter ++ sampleChapter.iter) = true
  manifest : document.find (opf "manifest") ≠ none
  metadata : document.find (opf "metadata") ≠ none

theorem readWritten_ok {α : Type} {write : α → Bytes} {known : List α} {failure : String}
    (hnodup : (known.map write).Nodup) {a : α} (h : a ∈ known) :
    readWritten write known failure (write a) = .ok a := by
  unfold readWritten
  rw [find?_of_nodup hnodup h]

theorem replaceCover_eq {lib : Libraries} {hex mediaType path : String} {archive : List Member}
    {document : Element} {source payload : Bytes} {written : List Entry}
    (htype : imageType payload = .ok mediaType) (harchive : lib.unzip source = .ok archive)
    (hpackage : lib.package archive = .ok (path, document))
    (hmanifest : document.find (opf "manifest") ≠ none) (hmetadata : document.find (opf "metadata") ≠ none)
    (hwritten : entries lib hex mediaType archive path document payload = .ok written) :
    replaceCover lib hex source payload = .ok (lib.zip written) := by
  have hfound : ¬ (document.find (opf "manifest") = none ∨ document.find (opf "metadata") = none) :=
    not_or.mpr ⟨hmanifest, hmetadata⟩
  unfold replaceCover
  simp only [htype, harchive, hpackage, hwritten, if_neg hfound, Bind.bind, Except.bind, pure, Except.pure]

theorem covered_longer {container document document' chapter : Bytes} (h : document.length ≤ document'.length)
    {cover : Entry} : (zipStored (sampleEntries container document chapter)).length <
      (zipStored (sampleEntries container document' chapter ++ [cover])).length := by
  simp only [zipStored_length, sampleEntries, List.map_append, List.map_cons, List.map_nil, List.sum_append,
    List.sum_cons, List.sum_nil]
  omega

section
variable {document : Element} {size size' : ℕ}

theorem Sampled.sizes (h : Sampled document size size') : ∀ root ∈ sampleDocuments document,
    100 ≤ (serializeDocument root).length ∧ (serializeDocument root).length ≤ 1000 := by
  intro root hroot
  have hlength := List.mem_map_of_mem (f := fun root => (serializeDocument root).length) hroot
  rw [h.lengths] at hlength
  have hincreasing := h.increasing
  simp only [List.mem_cons, List.not_mem_nil, or_false] at hlength
  omega

theorem sample_fromstring (h : Sampled document size size') {root : Element}
    (hroot : root ∈ sampleDocuments document) :
    (sampleLibraries document).fromstring (serializeDocument root) = .ok root := by
  have hnodup : ((sampleDocuments document).map serializeDocument).Nodup := by
    have hlengths : ((sampleDocuments document).map serializeDocument).map List.length =
        [261, size, 148, size'] := by
      rw [List.map_map]
      exact h.lengths
    have hdifferent : [261, size, 148, size'].Nodup := by
      have hincreasing := h.increasing
      simp only [List.nodup_cons, List.mem_cons, List.not_mem_nil, or_false, not_or, List.nodup_nil, and_true,
        not_false_eq_true]
      omega
    exact List.Nodup.of_map List.length (hlengths ▸ hdifferent)
  exact readWritten_ok hnodup hroot

theorem sample_archives (h : Sampled document size size') :
    ([sampleSource document, sampleCovered document].map zipStored).Nodup := by
  have hlarger : (serializeDocument document).length ≤
      (serializeDocument (covered sampleHex "image/png" document)).length := by
    have hlengths := h.lengths
    simp only [sampleDocuments, List.map_cons, List.map_nil, List.cons.injEq] at hlengths
    have hincreasing := h.increasing
    omega
  have hlength : (zipStored (sampleSource document)).length ≠ (zipStored (sampleCovered document)).length :=
    (covered_longer hlarger).ne
  have hne : zipStored (sampleSource document) ≠ zipStored (sampleCovered document) :=
    fun heq => hlength (congrArg List.length heq)
  rw [List.map_cons, List.map_cons, List.map_nil, List.nodup_cons, List.mem_singleton]
  exact ⟨hne, List.nodup_singleton _⟩

theorem sample_unzip (h : Sampled document size size') {entries : List Entry}
    (hentries : entries ∈ [sampleSource document, sampleCovered document]) :
    (sampleLibraries document).unzip (zipStored entries) = .ok (entries.map Entry.info) :=
  congrArg (Except.map (List.map Entry.info)) (readWritten_ok (sample_archives h) hentries)

theorem Sampled.members (h : Sampled document size size') : ∀ member ∈ sampleArchive document,
    member.fileSize ≤ 1000 ∧ member.compressSize = member.fileSize ∧ member.encrypted = false := by
  have hdocuments := h.sizes
  simp only [sampleDocuments, List.forall_mem_cons] at hdocuments
  obtain ⟨hcontainer, hdocument, hchapter, -⟩ := hdocuments
  have hmedia : (ascii "application/epub+zip".toList).length = 20 := by decide +kernel
  have hpng : (samplePng 1).length = 32 := by decide +kernel
  simp only [sampleArchive, sampleSource, sampleEntries, List.map_cons, List.map_nil,
    List.forall_mem_cons, Entry.info]
  simp only [hmedia, hpng, hcontainer.2, hdocument.2, hchapter.2]
  simp

theorem sample_packaged (h : Sampled document size size') :
    Packaged (sampleLibraries document) (sampleArchive document) "OEBPS/book.opf" document := by
  have hnames : (sampleArchive document).map (·.filename) =
      ["mimetype", "META-INF/container.xml", "OEBPS/book.opf", "OEBPS/c1.xhtml", "OEBPS/old.png"] := rfl
  have hplain : ∀ name ∈ ["mimetype", "META-INF/container.xml", "OEBPS/book.opf", "OEBPS/c1.xhtml",
      "OEBPS/old.png"], name.toList.head? ≠ some '/' ∧ ¬ Posix.hasParent name.toList ∧
        '\\' ∉ name.toList := by decide +kernel
  have hsizes := h.members
  have hcount : (sampleArchive document).length = 5 := rfl
  constructor
  case count => omega
  case total =>
    have hsum : ((sampleArchive document).map (·.fileSize)).sum ≤ ((sampleArchive document).map
        (·.fileSize)).length • 1000 := by
      apply List.sum_le_card_nsmul
      intro size hsize
      obtain ⟨member, hmember, rfl⟩ := List.mem_map.mp hsize
      exact (hsizes member hmember).1
    rw [List.length_map, hcount] at hsum
    exact hsum.trans (by decide)
  case nodup =>
    rw [hnames]
    decide
  case checked =>
    intro info hinfo
    obtain ⟨hsize, hcompress, hplaintext⟩ := hsizes info hinfo
    obtain ⟨habsolute, hparent, hbackslash⟩ := hplain info.filename (hnames ▸ List.mem_map_of_mem hinfo)
    have hratio : info.fileSize ≤ max 1 info.compressSize * 100 := by omega
    simp only [Member.Refused, not_or, not_lt]
    exact ⟨by simp, habsolute, hparent, hbackslash, by simp [hplaintext], by omega, hratio⟩
  case container =>
    exact ⟨serializeDocument sampleContainer, sampleContainer, rfl,
      sample_fromstring h (by simp [sampleDocuments]), of_toOption (by decide +kernel)⟩
  case document => exact ⟨serializeDocument document, rfl, sample_fromstring h (by simp [sampleDocuments])⟩

theorem sample_entries (document : Element) : entries (sampleLibraries document) sampleHex "image/png"
    (sampleArchive document) "OEBPS/book.opf" document (samplePng 0) = .ok (sampleCovered document) := by
  unfold entries
  rw [media_ascii]
  rfl

theorem sample_type : imageType (samplePng 0) = .ok "image/png" := of_toOption (by decide +kernel)

theorem sample_replaced (h : Sampled document size size') :
    replaceCover (sampleLibraries document) sampleHex (zipStored (sampleSource document)) (samplePng 0) =
      .ok (zipStored (sampleCovered document)) :=
  replaceCover_eq sample_type (sample_unzip h List.mem_cons_self)
    (package_ok.mpr (sample_packaged h)) h.manifest
    h.metadata (sample_entries document)

theorem sample_hex : IsHex sampleHex := by
  have hall : (sampleHex.toList.all fun c => c ∈ "0123456789abcdef".toList) = true := by decide +kernel
  intro c hc
  exact of_decide_eq_true (List.all_eq_true.mp hall c hc)

end

def sampleBook : { document // Sampled document 448 646 } where
  val := sampleDocument
  property := by
    constructor
    case lengths => decide +kernel
    case increasing => decide
    case fresh => decide +kernel
    case unmentioned => decide +kernel
    case manifest =>
      intro hnone
      cases hnone
    case metadata =>
      intro hnone
      cases hnone

theorem replaceCover_frame_sample :
    ∃ archive' name, (sampleLibraries sampleDocument).unzip
      (zipStored (sampleCovered sampleDocument)) = .ok archive' ∧
      CoverOnly (sampleLibraries sampleDocument) (sampleArchive sampleDocument) archive' "OEBPS/book.opf" name
        (coverItem (identifier sampleHex) (filename sampleHex "image/png") "image/png")
        (coverMeta (identifier sampleHex))
        sampleDocument (covered sampleHex "image/png" sampleDocument) (samplePng 0) := by
  have hsampled : Sampled sampleDocument 448 646 := sampleBook.property
  have hpackage := package_ok.mpr (sample_packaged hsampled)
  refine replaceCover_frame sample_hex (sample_replaced hsampled) (sample_unzip hsampled List.mem_cons_self)
    hpackage sample_type
    (by decide) hsampled.fresh ?_ ?_
  · intro written hwritten
    obtain rfl : sampleCovered sampleDocument = written :=
      Except.ok.inj ((sample_entries _).symm.trans hwritten)
    exact sample_unzip hsampled (List.mem_cons_of_mem _ List.mem_cons_self)
  · exact sample_fromstring hsampled (by simp [sampleDocuments])

end KenkuiServer.Api.Covers
