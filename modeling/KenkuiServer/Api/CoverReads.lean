import KenkuiServer.Api.Covers
import Mathlib.Data.List.Infix

/-! What is read back of an archive whose cover was replaced. The reader searches the whole document, and the
limits apply to the archive that was written. -/
namespace KenkuiServer.Api.Covers
open Data

def clearManifest : Element → Element := Element.withChildren (·.map (Element.withHead undeclare))

def clearMetadata : Element → Element := Element.withChildren (·.filter (·.head.get "name" ≠ some "cover"))

/-- The document without the declarations that are taken away. -/
def cleared (document : Element) : Element :=
  (document.update (opf "manifest") clearManifest).update (opf "metadata") clearMetadata

/-- The declaration that is left before the end of the manifest. -/
def survivor (document : Element) : Option Tagged :=
  ((cleared document).iterThrough (opf "manifest")).find? (declares (coverIds (cleared document).iter))

section
variable {hex mediaType : String} {document : Element}

theorem withChildren_tag (f : List Element → List Element) (e : Element) :
    (e.withChildren f).head.tag = e.head.tag := by
  cases e
  rfl

theorem manifest_ne_metadata : opf "manifest" ≠ opf "metadata" := by decide +kernel

theorem covered_eq : covered hex mediaType document =
    ((cleared document).update (opf "manifest")
      (Element.subElement (coverItem (identifier hex) (filename hex mediaType) mediaType))).update
        (opf "metadata")
        (Element.subElement (coverMeta (identifier hex))) := by
  have hcomm : ∀ e : Element, (e.update (opf "manifest")
      (Element.subElement (coverItem (identifier hex) (filename hex mediaType) mediaType))).update
        (opf "metadata")
        clearMetadata = (e.update (opf "metadata") clearMetadata).update (opf "manifest")
          (Element.subElement (coverItem (identifier hex) (filename hex mediaType) mediaType)) :=
    fun e => Element.update_comm manifest_ne_metadata (withChildren_tag _) (withChildren_tag _) e
  have hmetadata : ∀ e : Element, (e.update (opf "metadata") clearMetadata).update (opf "metadata")
      (Element.subElement (coverMeta (identifier hex))) = e.update (opf "metadata")
        (rewriteMetadata (coverMeta (identifier hex))) :=
    fun e => Element.update_comp (withChildren_tag _) e
  have hitem : (document.update (opf "manifest") clearManifest).update (opf "manifest")
      (Element.subElement (coverItem (identifier hex) (filename hex mediaType) mediaType)) =
      document.update (opf "manifest")
        (rewriteManifest (coverItem (identifier hex) (filename hex mediaType) mediaType)) :=
    Element.update_comp (withChildren_tag _) document
  unfold cleared
  rw [← hcomm, hmetadata, hitem]
  rfl

theorem find?_covered {p : Tagged → Bool}
    (hitem : p (coverItem (identifier hex) (filename hex mediaType) mediaType) = false)
    (hcover : p (coverMeta (identifier hex)) = false) :
    (covered hex mediaType document).iter.find? p = (cleared document).iter.find? p := by
  rw [covered_eq, Element.find?_iter_unseen hcover, Element.find?_iter_unseen hitem]

theorem coverItem_localName {id href mediaType : String} :
    (coverItem id href mediaType).localName = "item" := by
  have hname : ∀ attrib, (⟨opf "item", attrib⟩ : Tagged).localName = (⟨opf "item", []⟩ : Tagged).localName :=
    fun _ => rfl
  have hlocal : (⟨opf "item", []⟩ : Tagged).localName = "item" := by decide +kernel
  exact (hname _).trans hlocal

theorem coverMeta_localName {id : String} : (coverMeta id).localName = "meta" := by
  have hname : ∀ attrib, (⟨opf "meta", attrib⟩ : Tagged).localName = (⟨opf "meta", []⟩ : Tagged).localName :=
    fun _ => rfl
  have hlocal : (⟨opf "meta", []⟩ : Tagged).localName = "meta" := by decide +kernel
  exact (hname _).trans hlocal

theorem rootfilePath_covered : rootfilePath (covered hex mediaType document) = rootfilePath
    (cleared document) := by
  have hfound : (covered hex mediaType document).iter.find? (·.localName = "rootfile") =
      (cleared document).iter.find? (·.localName = "rootfile") := by
    refine find?_covered ?_ ?_
    · rw [coverItem_localName]
      decide
    · rw [coverMeta_localName]
      decide
  unfold rootfilePath
  rw [hfound]

theorem mem_clearManifest {e : Element} {x : Tagged} (hx : x ∈ (clearManifest e).iter) :
    ∃ y ∈ e.iter, ∀ name, name ≠ "properties" → x.get name = y.get name := by
  obtain ⟨head, text, tail, children⟩ := e
  simp only [clearManifest, Element.withChildren, Element.iter, List.mem_cons, Element.mem_iterAll] at hx
  rcases hx with rfl | ⟨child', hchild', hx⟩
  · exact ⟨x, List.mem_cons_self, fun _ _ => rfl⟩
  · obtain ⟨⟨childHead, childText, childTail, inner⟩, hchild, rfl⟩ := List.mem_map.mp hchild'
    simp only [Element.withHead, Element.iter, List.mem_cons] at hx
    rcases hx with rfl | hx
    · exact ⟨childHead, List.mem_cons_of_mem _ (Element.mem_iterAll.mpr ⟨_, hchild, List.mem_cons_self⟩),
        (undeclared childHead).others⟩
    · exact ⟨x, List.mem_cons_of_mem _ (Element.mem_iterAll.mpr ⟨_, hchild, List.mem_cons_of_mem _ hx⟩),
        fun _ _ => rfl⟩

theorem mem_clearMetadata {e : Element} {x : Tagged} (hx : x ∈ (clearMetadata e).iter) : x ∈ e.iter := by
  obtain ⟨head, text, tail, children⟩ := e
  simp only [clearMetadata, Element.withChildren, Element.iter, List.mem_cons, Element.mem_iterAll] at hx
  rcases hx with rfl | ⟨child, hchild, hx⟩
  · exact List.mem_cons_self
  · exact List.mem_cons_of_mem _ (Element.mem_iterAll.mpr ⟨child, List.mem_of_mem_filter hchild, hx⟩)

theorem mem_cleared {x : Tagged} (h : x ∈ (cleared document).iter) :
    ∃ e ∈ document.iter, ∀ name, name ≠ "properties" → x.get name = e.get name := by
  have hmetadata : ∀ (e : Element) (x : Tagged), x ∈ (clearMetadata e).iter →
      ∃ y ∈ e.iter, ∀ name, name ≠ "properties" → x.get name = y.get name :=
    fun e x hx => ⟨x, mem_clearMetadata hx, fun _ _ => rfl⟩
  obtain ⟨y, hy, hxy⟩ := Element.mem_iter_update (fun _ _ _ => rfl) hmetadata h
  obtain ⟨z, hz, hyz⟩ := Element.mem_iter_update (fun _ _ _ => rfl) (fun e x hx => mem_clearManifest hx) hy
  exact ⟨z, hz, fun name hname => (hxy name hname).trans (hyz name hname)⟩

theorem find_cleared_manifest {manifest : Element} (h : document.find (opf "manifest") = some manifest) :
    (cleared document).find (opf "manifest") = some (clearManifest manifest) := by
  have hcleared : (document.update (opf "manifest") clearManifest).find (opf "manifest") =
      some (clearManifest manifest) :=
    Element.find_update (withChildren_tag _) h
  exact (Element.find_update_of_ne manifest_ne_metadata (withChildren_tag _) _).trans hcleared

theorem find_cleared_metadata {metadata : Element} (h : document.find (opf "metadata") = some metadata) :
    (cleared document).find (opf "metadata") = some (clearMetadata metadata) := by
  have hkept : (document.update (opf "manifest") clearManifest).find (opf "metadata") = some metadata :=
    (Element.find_update_of_ne manifest_ne_metadata.symm (withChildren_tag _) document).trans h
  exact Element.find_update (withChildren_tag _) hkept

theorem mem_coverIds_covered {manifest metadata : Element}
    (hmanifest : document.find (opf "manifest") = some manifest)
    (hmetadata : document.find (opf "metadata") = some metadata) {id : Option String} :
    id ∈ coverIds (covered hex mediaType document).iter ↔
      id ∈ coverIds (cleared document).iter ∨ id = some (identifier hex) := by
  have hfirst := find_cleared_manifest hmanifest
  have hsecond : ((cleared document).update (opf "manifest")
      (Element.subElement (coverItem (identifier hex) (filename hex mediaType) mediaType))).find
        (opf "metadata") =
      some (clearMetadata metadata) := by
    have hcleared := find_cleared_metadata hmetadata
    exact (Element.find_update_of_ne manifest_ne_metadata.symm (withChildren_tag _) _).trans hcleared
  have hitem : (coverItem (identifier hex) (filename hex mediaType) mediaType).get "name" = none := rfl
  have hcover : (coverMeta (identifier hex)).get "name" = some "cover" := rfl
  have hcontent : (coverMeta (identifier hex)).get "content" = some (identifier hex) := rfl
  unfold coverIds
  rw [covered_eq]
  simp only [List.mem_map, List.mem_filter, Element.mem_iter_appended hsecond,
    Element.mem_iter_appended hfirst]
  constructor
  · rintro ⟨e, ⟨(he | rfl) | rfl, hname⟩, rfl⟩
    · exact .inl ⟨e, ⟨he, hname⟩, rfl⟩
    · rw [hitem] at hname
      cases hname
    · exact .inr hcontent
  · rintro (⟨e, ⟨he, hname⟩, rfl⟩ | rfl)
    · exact ⟨e, ⟨.inl (.inl he), hname⟩, rfl⟩
    · exact ⟨coverMeta (identifier hex), ⟨.inr rfl, by rw [hcover]; rfl⟩, hcontent⟩

/-- The identifier of the new cover is no identifier of the document. -/
theorem declares_covered {manifest metadata : Element}
    (hmanifest : document.find (opf "manifest") = some manifest)
    (hmetadata : document.find (opf "metadata") = some metadata) {e : Tagged}
      (he : e.get "id" ≠ some (identifier hex)) :
    declares (coverIds (covered hex mediaType document).iter) e = declares
      (coverIds (cleared document).iter) e := by
  unfold declares
  simp only [mem_coverIds_covered hmanifest hmetadata, he, or_false]

/-- The reader comes to the item of the new cover, unless a declaration is left before it. -/
theorem find?_declares {manifest metadata : Element}
    (hmanifest : document.find (opf "manifest") = some manifest)
    (hmetadata : document.find (opf "metadata") = some metadata)
    (hfresh : ∀ e ∈ document.iter, e.get "id" ≠ some (identifier hex)) :
    (covered hex mediaType document).iter.find? (declares (coverIds (covered hex mediaType document).iter)) =
      some ((survivor document).getD (coverItem (identifier hex) (filename hex mediaType) mediaType)) := by
  have hfirst := find_cleared_manifest hmanifest
  have hcover : declares (coverIds (covered hex mediaType document).iter)
      (coverMeta (identifier hex)) = false := by
    unfold declares
    rw [coverMeta_localName]
    simp
  have hitem : declares (coverIds (covered hex mediaType document).iter)
      (coverItem (identifier hex) (filename hex mediaType) mediaType) = true := by
    have hproperties : "cover-image" ∈ properties
        (coverItem (identifier hex) (filename hex mediaType) mediaType) := by
      have hvalue : (coverItem (identifier hex) (filename hex mediaType) mediaType).get "properties" =
          some "cover-image" := rfl
      rw [properties, hvalue]
      decide +kernel
    unfold declares
    rw [coverItem_localName]
    simpa using Or.inl hproperties
  have hsearch : ((cleared document).iterThrough (opf "manifest")).find?
      (declares (coverIds (covered hex mediaType document).iter)) = survivor document := by
    have hcongr : ∀ elements : List Tagged, (∀ e ∈ elements, e.get "id" ≠ some (identifier hex)) →
        elements.find? (declares (coverIds (covered hex mediaType document).iter)) =
          elements.find? (declares (coverIds (cleared document).iter)) := by
      intro elements
      induction elements with
      | nil =>
        intro _
        rw [List.find?_nil, List.find?_nil]
      | cons e elements ih =>
        intro h
        rw [List.forall_mem_cons] at h
        rw [List.find?_cons, List.find?_cons, declares_covered hmanifest hmetadata h.1, ih h.2]
    refine hcongr _ fun e he => ?_
    obtain ⟨source, hsource, hsame⟩ := mem_cleared (Element.iterThrough_subset he)
    rw [hsame "id" (by decide)]
    exact hfresh source hsource
  have hfind := Element.find?_iter_seen hitem hfirst
  rw [hsearch] at hfind
  exact Eq.trans (congrArg (fun e => e.iter.find? (declares (coverIds (covered hex mediaType document).iter)))
    covered_eq)
    ((Element.find?_iter_unseen hcover _).trans hfind)

end

/-- The bytes that a member of the source has in the archive that is written. -/
def HasBytes (lib : Libraries) (archive : List Member) (path : String) (document' : Element) (name : String)
    (data : Bytes) : Prop :=
  name ≠ "mimetype" ∧ ∃ member ∈ archive, member.filename = name ∧
    if name = path then lib.tostring document' = data else member.content = .ok data

/-- The element refers to a member of these bytes. -/
def Names (lib : Libraries) (archive : List Member) (path : String) (document' : Element)
    (base : String) (e : Tagged) (data : Bytes) : Prop :=
  ∃ href name, e.get "href" = some href ∧ resolve base href = .ok name ∧
    HasBytes lib archive path document' name data

/-- The limits of the reader hold with what the writer adds. -/
structure Fits (lib : Libraries) (archive : List Member) (path : String) (document' : Element)
    (payload : Bytes) : Prop where
  count : (archive.filter (·.filename ≠ "mimetype")).length + 2 ≤ 10000
  total : 20 + ((archive.filter (·.filename ≠ "mimetype")).map fun member =>
    if member.filename = path then (lib.tostring document').length
      else member.fileSize).sum + payload.length ≤
      128 * 1024 * 1024
  size : (lib.tostring document').length ≤ 32 * 1024 * 1024
  ratio : ∀ member ∈ archive, ∀ data, HasBytes lib archive path document' member.filename data →
    data.length ≤ max 1 (lib.deflate member.compressType data) * 100

/-- The cover that is read back is the one that was put: the limits hold, the container still names a package
document, and what that declares first, where anything is before the new item, is a member of these bytes. -/
structure Readable (lib : Libraries) (hex mediaType : String) (archive : List Member) (path : String)
    (document : Element) (payload : Bytes) (path' : String) : Prop where
  fits : Fits lib archive path (covered hex mediaType document) payload
  located :
    if path = "META-INF/container.xml" then rootfilePath (cleared document) = .ok path' else path' = path
  package : path' ≠ "mimetype"
  same : path' = path → ∀ e ∈ survivor document,
    Names lib archive path (covered hex mediaType document) path e payload
  other : path' ≠ path → ∃ data document₂ e,
    HasBytes lib archive path (covered hex mediaType document) path' data ∧
    lib.fromstring data = .ok document₂ ∧ document₂.iter.find? (declares (coverIds document₂.iter)) = some e ∧
      Names lib archive path (covered hex mediaType document) path' e payload

/-- The identifier occurs nowhere: not in the names of the source, nor in its documents or what they refer
to. -/
structure Fresh (lib : Libraries) (hex : String) (archive : List Member) : Prop where
  names : ∀ member ∈ archive, ¬ (identifier hex).toList <:+: member.filename.toList
  documents : ∀ member ∈ archive, ∀ data document, member.content = .ok data →
    lib.fromstring data = .ok document →
    ∀ e ∈ document.iter, ∀ entry ∈ e.attrib, entry.2 ≠ identifier hex ∧
      ∀ base ∈ "" :: archive.map (·.filename), ∀ target, resolve base entry.2 = .ok target →
        ¬ (identifier hex).toList <:+: target.toList

/-- What the libraries do: a stored entry takes its own size, the media type is no document, and reading a
member gives as many bytes as its directory says. -/
structure Documented (lib : Libraries) (archive : List Member) : Prop where
  stored : ∀ data, lib.deflate 0 data = data.length
  media : ∀ document, lib.fromstring "application/epub+zip".toUTF8.toList ≠ .ok document
  sizes : ∀ member ∈ archive, ∀ data, member.content = .ok data → data.length = member.fileSize

section
variable {lib : Libraries} {hex mediaType path : String} {archive : List Member} {document : Element}
  {source payload output : Bytes}

theorem getItem_ok {e : Tagged} {name value : String} : getItem e name = .ok value ↔
    e.get name = some value := by
  unfold getItem
  cases e.get name <;> simp

theorem readCover_ok {data : Bytes} {type : String} : readCover lib source = .ok (some (data, type)) ↔
    ∃ archive path document item href name info, lib.unzip source = .ok archive ∧
      Packaged lib archive path document ∧
      document.iter.find? (declares (coverIds document.iter)) = some item ∧ item.get "href" = some href ∧
      resolve path href = .ok name ∧ getInfo archive name = .ok info ∧ info.fileSize ≤ maxCoverBytes ∧
      info.content = .ok data ∧ imageType data = .ok type := by
  constructor
  · intro h
    unfold readCover at h
    obtain ⟨archive, harchive, h⟩ := bind_eq_ok.mp h
    obtain ⟨⟨path, document⟩, hpackage, h⟩ := bind_eq_ok.mp h
    simp only at h
    cases hitem : document.iter.find? (declares (coverIds document.iter)) with
    | none =>
      rw [hitem] at h
      cases h
    | some item =>
      rw [hitem] at h
      obtain ⟨href, hhref, h⟩ := bind_eq_ok.mp h
      obtain ⟨name, hname, h⟩ := bind_eq_ok.mp h
      obtain ⟨info, hinfo, h⟩ := bind_eq_ok.mp h
      split_ifs at h with hlarge
      · cases h
      obtain ⟨payload, hpayload, h⟩ := bind_eq_ok.mp h
      obtain ⟨type', htype, h⟩ := bind_eq_ok.mp h
      cases h
      exact ⟨archive, path, document, item, href, name, info, harchive, package_ok.mp hpackage, hitem,
        getItem_ok.mp hhref, hname, hinfo, not_lt.mp hlarge, hpayload, htype⟩
  · rintro ⟨archive, path, document, item, href, name, info, harchive, hpackaged, hitem, hget, hname,
      hinfo, hsize, hdata, htype⟩
    have hhref := getItem_ok.mpr hget
    unfold readCover
    simp only [harchive, package_ok.mpr hpackaged, hitem, hhref, hname, hinfo, Bind.bind, Except.bind,
      if_neg hsize.not_gt, hdata, htype]
    rfl

/-- The entries that are written: the media type, the copies, the cover. -/
def rewritten (copies : List Entry) (name : String) (payload : Bytes) : List Entry :=
  ⟨"mimetype", 0, "application/epub+zip".toUTF8.toList⟩ :: copies ++ [⟨name, 0, payload⟩]

/-- What reading a name of the archive that was written gives. -/
theorem read_written {copies : List Entry} {name : String}
    (h : Written lib hex archive path (covered hex mediaType document) payload copies name) {target : String}
    {data : Bytes} :
    read ((rewritten copies name payload).map lib.stored) target = .ok data ↔
      (target = "mimetype" ∧ data = "application/epub+zip".toUTF8.toList) ∨ (target = name ∧ data = payload) ∨
        HasBytes lib archive path (covered hex mediaType document) target data := by
  have hwritten : ((rewritten copies name payload).map (·.filename)).Nodup := by
    have hframed := h.nodup
    simpa [rewritten] using hframed
  -- A name that is found is the one of an entry.
  have hread : read ((rewritten copies name payload).map lib.stored) target = .ok data ↔
      ∃ entry ∈ rewritten copies name payload, entry.filename = target ∧ entry.data = data := by
    constructor
    · intro hok
      obtain ⟨info, hinfo, hcontent⟩ := bind_eq_ok.mp hok
      obtain ⟨hmem, hname⟩ := getInfo_ok hinfo
      obtain ⟨entry, hentry, rfl⟩ := List.mem_map.mp hmem
      exact ⟨entry, hentry, hname, Except.ok.inj hcontent⟩
    · rintro ⟨entry, hentry, rfl, rfl⟩
      exact read_stored hwritten hentry
  rw [hread]
  constructor
  · rintro ⟨entry, hentry, rfl, rfl⟩
    rw [rewritten, List.cons_append, List.mem_cons, List.mem_append, List.mem_singleton] at hentry
    rcases hentry with rfl | hcopy | rfl
    · exact .inl ⟨rfl, rfl⟩
    · obtain ⟨member, hmember, hsame, -, hpath, hother⟩ := exists_of_forall₂ h.copied.flip hcopy
      have hne := List.mem_filter.mp hmember
      refine .inr (.inr ⟨?_, member, hne.1, hsame.symm, ?_⟩)
      · rw [hsame]
        simpa using hne.2
      · rw [hsame]
        split_ifs with htarget
        · exact (hpath htarget).symm
        · exact hother htarget
    · exact .inr (.inl ⟨rfl, rfl⟩)
  · rintro (⟨rfl, rfl⟩ | ⟨rfl, rfl⟩ | ⟨hne, member, hmember, rfl, hdata⟩)
    · exact ⟨_, List.mem_append_left _ List.mem_cons_self, rfl, rfl⟩
    · exact ⟨_, List.mem_append_right _ List.mem_cons_self, rfl, rfl⟩
    · obtain ⟨entry, hentry, hname, -, hpath, hother⟩ := h.copy hmember hne
      refine ⟨entry, List.mem_append_left _ (List.mem_cons_of_mem _ hentry), hname, ?_⟩
      split_ifs at hdata with htarget
      · rw [hpath htarget, hdata]
      · have hcontent := hother htarget
        rw [hdata] at hcontent
        exact (Except.ok.inj hcontent).symm

theorem resolve_accepted {base href name : String} (h : resolve base href = .ok name) :
    name.toList.head? ≠ some '/' ∧ ¬ Posix.hasParent name.toList ∧ '\\' ∉ name.toList := by
  unfold resolve at h
  simp only at h
  split_ifs at h with hurl hpath
  rw [← Except.ok.inj h]
  simpa [not_or] using hpath

theorem copies_sizes {copies : List Entry} {name : String}
    (h : Written lib hex archive path (covered hex mediaType document) payload copies name)
    (hlib : Documented lib archive) :
    copies.map (·.data.length) = (archive.filter (·.filename ≠ "mimetype")).map fun member =>
      if member.filename = path then (lib.tostring (covered hex mediaType document)).length
        else member.fileSize := by
  rw [← List.forall₂_eq_eq_eq, List.forall₂_map_left_iff, List.forall₂_map_right_iff]
  have hmem : ∀ member ∈ archive.filter (·.filename ≠ "mimetype"), member ∈ archive :=
    fun member hmember => List.mem_of_mem_filter hmember
  have hboth := (List.forall₂_and_left _ _).mpr ⟨hmem, h.copied⟩
  refine hboth.flip.imp fun entry member hentry => ?_
  obtain ⟨hmember, -, -, hpath, hother⟩ := hentry
  split_ifs with htarget
  · rw [hpath htarget]
  · exact hlib.sizes member hmember entry.data (hother htarget)

theorem payload_bounds (h : imageType payload = .ok mediaType) : 32 ≤ payload.length ∧
    payload.length ≤ maxCoverBytes := by
  unfold imageType at h
  simp only at h
  split_ifs at h with hbounds
  · exact hbounds
  · exact hbounds

theorem media_length : "application/epub+zip".toUTF8.toList.length = 20 := by decide +kernel

theorem media_ne_payload (h : imageType payload = .ok mediaType) :
    payload ≠ "application/epub+zip".toUTF8.toList := by
  rintro rfl
  have hbounds := (payload_bounds h).1
  rw [media_length] at hbounds
  omega

theorem fits_iff {copies : List Entry} {name : String}
    (h : Written lib hex archive path (covered hex mediaType document) payload copies name)
    (hpackaged : Packaged lib archive path document) (hlib : Documented lib archive)
    (hpath : path ≠ "mimetype") (htype : imageType payload = .ok mediaType)
    (hname : resolve path (filename hex mediaType) = .ok name) :
    (((rewritten copies name payload).map lib.stored).length ≤ 10000 ∧
      (((rewritten copies name payload).map lib.stored).map (·.fileSize)).sum ≤ 128 * 1024 * 1024 ∧
      ∀ info ∈ (rewritten copies name payload).map lib.stored, ¬ info.Refused []) ↔
      Fits lib archive path (covered hex mediaType document) payload := by
  have hlength : ((rewritten copies name payload).map lib.stored).length =
      (archive.filter (·.filename ≠ "mimetype")).length + 2 := by
    have hcopies := h.copied.length_eq
    simp only [rewritten, List.length_map, List.length_append, List.length_cons, List.length_nil, hcopies]
  have hsum : (((rewritten copies name payload).map lib.stored).map (·.fileSize)).sum =
      20 + ((archive.filter (·.filename ≠ "mimetype")).map fun member =>
        if member.filename = path then (lib.tostring (covered hex mediaType document)).length
          else member.fileSize).sum +
          payload.length := by
    have hsizes := copies_sizes h hlib
    have hmap : ((rewritten copies name payload).map lib.stored).map (·.fileSize) =
        20 :: copies.map (·.data.length) ++ [payload.length] := by
      simp only [rewritten, List.map_append, List.map_cons, List.map_nil, List.map_map,
        Libraries.stored, media_length]
      rfl
    rw [hmap, hsizes, List.sum_append, List.sum_cons, List.sum_singleton]
  rw [hlength, hsum]
  have hmaxCover : maxCoverBytes = 8388608 := rfl
  have hbounds := payload_bounds htype
  -- The entry of a member is refused for its size only.
  have hcopy : ∀ entry ∈ copies, ∃ member ∈ archive, member.filename = entry.filename ∧
      member.compressType = entry.compressType ∧
      HasBytes lib archive path (covered hex mediaType document) member.filename entry.data ∧
      (member.filename ≠ path → entry.data.length = member.fileSize) := by
    intro entry hentry
    obtain ⟨member, hmember, hsame, hcompress, hdata, hother⟩ := exists_of_forall₂ h.copied.flip hentry
    have hne := List.mem_filter.mp hmember
    refine ⟨member, hne.1, hsame.symm, hcompress.symm, ⟨by simpa using hne.2, member, hne.1, rfl, ?_⟩,
      fun hne' => ?_⟩
    · split_ifs with htarget
      · exact (hdata htarget).symm
      · exact hother htarget
    · exact hlib.sizes member hne.1 entry.data (hother hne')
  constructor
  · rintro ⟨hcount, htotal, hchecked⟩
    have hsmall : ∀ member ∈ archive, ∀ data, HasBytes lib archive path (covered hex mediaType document)
        member.filename data →
        data.length ≤ 32 * 1024 * 1024 ∧
          data.length ≤ max 1 (lib.deflate member.compressType data) * 100 := by
      intro member hmember data hbytes
      obtain ⟨hne, member', hmember', hsame, hdata⟩ := hbytes
      obtain rfl : member' = member := List.inj_on_of_nodup_map hpackaged.nodup hmember' hmember hsame
      obtain ⟨entry, hentry, hfilename, hcompress, hrewritten, hother⟩ := h.copy hmember hne
      have hdata : entry.data = data := by
        split_ifs at hdata with htarget
        · rw [hrewritten htarget, hdata]
        · have hcontent := hother htarget
          rw [hdata] at hcontent
          exact (Except.ok.inj hcontent).symm
      have hmem : lib.stored entry ∈ (rewritten copies name payload).map lib.stored := by
        refine List.mem_map_of_mem ?_
        exact List.mem_append_left _ (List.mem_cons_of_mem _ hentry)
      have hrefused := hchecked _ hmem
      simp only [Member.Refused, not_or, not_lt, Libraries.stored] at hrefused
      rw [hdata, hcompress] at hrefused
      exact ⟨hrefused.2.2.2.2.2.1, hrefused.2.2.2.2.2.2⟩
    obtain ⟨raw, hraw, -⟩ := hpackaged.document
    obtain ⟨member, hmember, -⟩ := bind_eq_ok.mp hraw
    obtain ⟨hmem, hnamed⟩ := getInfo_ok hmember
    have hdocument : HasBytes lib archive path (covered hex mediaType document) member.filename
        (lib.tostring (covered hex mediaType document)) :=
      ⟨hnamed ▸ hpath, member, hmem, rfl, by rw [if_pos hnamed]⟩
    exact ⟨hcount, htotal, (hsmall member hmem _ hdocument).1,
      fun member hmember data hbytes => (hsmall member hmember data hbytes).2⟩
  · intro hfits
    refine ⟨hfits.count, hfits.total, ?_⟩
    intro info hinfo
    obtain ⟨entry, hentry, rfl⟩ := List.mem_map.mp hinfo
    rw [rewritten, List.cons_append, List.mem_cons, List.mem_append, List.mem_singleton] at hentry
    simp only [Member.Refused, not_or, not_lt, Libraries.stored]
    rcases hentry with rfl | hmem | rfl
    · refine ⟨by simp, by decide +kernel, by decide +kernel, by decide +kernel, by simp, ?_, ?_⟩
      · rw [media_length]
        omega
      · rw [hlib.stored, media_length]
        omega
    · obtain ⟨member, hmember, hsame, hcompress, hbytes, hsize⟩ := hcopy entry hmem
      have hsource := hpackaged.checked member hmember
      simp only [Member.Refused, not_or, not_lt] at hsource
      obtain ⟨-, habsolute, hparent, hbackslash, -, hsmall, -⟩ := hsource
      rw [hsame] at habsolute hparent hbackslash
      refine ⟨by simp, habsolute, hparent, hbackslash, by simp, ?_, ?_⟩
      · by_cases htarget : member.filename = path
        · obtain ⟨-, member', hmember', hsame', hdata⟩ := hbytes
          rw [if_pos htarget] at hdata
          rw [← hdata]
          exact hfits.size
        · rw [hsize htarget]
          exact hsmall
      · rw [← hcompress]
        exact hfits.ratio member hmember entry.data hbytes
    · obtain ⟨habsolute, hparent, hbackslash⟩ := resolve_accepted hname
      have hlarge : payload.length ≤ 32 * 1024 * 1024 := by omega
      have hratio : payload.length ≤ max 1 payload.length * 100 := by omega
      refine ⟨by simp, habsolute, hparent, hbackslash, by simp, hlarge, ?_⟩
      rw [hlib.stored]
      exact hratio

theorem read_source {target : String} {data : Bytes} (h : read archive target = .ok data) :
    ∃ member ∈ archive, member.filename = target ∧ member.content = .ok data := by
  obtain ⟨member, hmember, hcontent⟩ := bind_eq_ok.mp h
  obtain ⟨hmem, hname⟩ := getInfo_ok hmember
  exact ⟨member, hmem, hname, hcontent⟩

theorem mem_attrib {e : Tagged} {key value : String} (h : e.get key = some value) :
    (key, value) ∈ e.attrib := by
  obtain ⟨before, rest, hattrib, -⟩ := List.lookup_eq_some_iff.mp h
  rw [hattrib]
  exact List.mem_append_right _ List.mem_cons_self

theorem cleared_fresh (hpackaged : Packaged lib archive path document)
    (hfresh : Fresh lib hex archive) {e : Tagged} (he : e ∈ (cleared document).iter)
    {key value base target : String} (hne : key ≠ "properties")
    (hbase : base ∈ "" :: archive.map (·.filename)) (hget : e.get key = some value)
    (htarget : resolve base value = .ok target) :
    ¬ (identifier hex).toList <:+: target.toList := by
  obtain ⟨raw, hraw, hdocument⟩ := hpackaged.document
  obtain ⟨member, hmember, -, hcontent⟩ := read_source hraw
  obtain ⟨e', he', hsame⟩ := mem_cleared he
  rw [hsame key hne] at hget
  exact (hfresh.documents member hmember raw document hcontent hdocument e' he' _ (mem_attrib hget)).2 base
    hbase target htarget

theorem rootfilePath_ok {container : Element} (h : rootfilePath container = .ok path) :
    ∃ e ∈ container.iter, ∃ value, e.get "full-path" = some value ∧ resolve "" value = .ok path := by
  unfold rootfilePath at h
  split at h
  · cases h
  · rename_i rootfile hrootfile
    obtain ⟨value, hvalue, htarget⟩ := bind_eq_ok.mp h
    exact ⟨rootfile, List.mem_of_find?_eq_some hrootfile, value, getItem_ok.mp hvalue, htarget⟩

theorem packaged_written {copies : List Entry} {name : String}
    (h : Written lib hex archive path (covered hex mediaType document) payload copies name)
    (hhex : IsHex hex) (hpackaged : Packaged lib archive path document) (hlib : Documented lib archive)
    (hfresh : Fresh lib hex archive) (htype : imageType payload = .ok mediaType)
    (hname : resolve path (filename hex mediaType) = .ok name)
    (hxml : lib.fromstring (lib.tostring (covered hex mediaType document)) =
      .ok (covered hex mediaType document))
    {path' : String} {document' : Element} :
    Packaged lib ((rewritten copies name payload).map lib.stored) path' document' ↔
      path' ≠ "mimetype" ∧ Fits lib archive path (covered hex mediaType document) payload ∧
        (if path = "META-INF/container.xml" then rootfilePath (cleared document) = .ok path'
          else path' = path) ∧
        ∃ data, HasBytes lib archive path (covered hex mediaType document) path' data ∧
          lib.fromstring data = .ok document' := by
  have hidentifier := resolve_filename hhex hname
  obtain ⟨data₀, container, hdata₀, hcontainer, hrootfile⟩ := hpackaged.container
  obtain ⟨containerMember, hcontainerMember, hcontainerName, hcontainerContent⟩ := read_source hdata₀
  have hmimetype : "META-INF/container.xml" ≠ "mimetype" := by decide
  constructor
  · intro hwritten
    obtain ⟨cdata, c, hcdata, hc, hpath'⟩ := hwritten.container
    have hcontainerBytes : HasBytes lib archive path (covered hex mediaType document)
        "META-INF/container.xml" cdata := by
      rcases (read_written h).mp hcdata with ⟨hcontra, -⟩ | ⟨hcontra, -⟩ | hbytes
      · exact absurd hcontra hmimetype
      · exact absurd (hcontra ▸ hcontainerName ▸ List.mem_map_of_mem hcontainerMember) h.fresh
      · exact hbytes
    have hlocated :
        if path = "META-INF/container.xml" then rootfilePath (cleared document) = .ok path'
        else path' = path := by
      obtain ⟨-, member, hmember, hmemberName, hbytes⟩ := hcontainerBytes
      by_cases hcase : path = "META-INF/container.xml"
      · rw [if_pos hcase]
        rw [if_pos hcase.symm] at hbytes
        rw [← hbytes, hxml] at hc
        cases hc
        rwa [rootfilePath_covered] at hpath'
      · rw [if_neg hcase]
        rw [if_neg (Ne.symm hcase)] at hbytes
        have hsource := read_mem hpackaged.nodup hmember
        rw [hmemberName, hdata₀, hbytes] at hsource
        cases hsource
        rw [hcontainer] at hc
        cases hc
        rw [hrootfile] at hpath'
        exact (Except.ok.inj hpath').symm
    obtain ⟨raw, hraw, hdocument'⟩ := hwritten.document
    have hne : path' ≠ name := by
      rintro rfl
      by_cases hcase : path = "META-INF/container.xml"
      · rw [if_pos hcase] at hlocated
        obtain ⟨e, he, value, hget, htarget⟩ := rootfilePath_ok hlocated
        exact cleared_fresh hpackaged hfresh he (by decide) List.mem_cons_self hget htarget hidentifier
      · rw [if_neg hcase] at hlocated
        obtain ⟨data, hdata, -⟩ := hpackaged.document
        obtain ⟨member, hmember, hmemberName, -⟩ := read_source hdata
        exact h.fresh (hlocated ▸ hmemberName ▸ List.mem_map_of_mem hmember)
    have hbytes : HasBytes lib archive path (covered hex mediaType document) path' raw := by
      rcases (read_written h).mp hraw with ⟨-, rfl⟩ | ⟨hcontra, -⟩ | hbytes
      · exact absurd hdocument' (hlib.media document')
      · exact absurd hcontra hne
      · exact hbytes
    have hpath : path ≠ "mimetype" := by
      rintro rfl
      rw [if_neg hmimetype.symm] at hlocated
      exact hbytes.1 hlocated
    have hfits := (fits_iff h hpackaged hlib hpath htype hname).mp
      ⟨hwritten.count, hwritten.total, hwritten.checked⟩
    exact ⟨hbytes.1, hfits, hlocated, raw, hbytes, hdocument'⟩
  · rintro ⟨hne, hfits, hlocated, data, hbytes, hdocument'⟩
    have hpath : path ≠ "mimetype" := by
      rintro rfl
      rw [if_neg hmimetype.symm] at hlocated
      exact hne hlocated
    obtain ⟨hcount, htotal, hchecked⟩ := (fits_iff h hpackaged hlib hpath htype hname).mpr hfits
    have hnodup : (((rewritten copies name payload).map lib.stored).map (·.filename)).Nodup := by
      have hframed := h.nodup
      rw [List.map_map]
      simpa [rewritten, Libraries.stored, Function.comp_def] using hframed
    refine ⟨hcount, htotal, hnodup, hchecked, ?_, data, (read_written h).mpr (.inr (.inr hbytes)), hdocument'⟩
    by_cases hcase : path = "META-INF/container.xml"
    · rw [if_pos hcase] at hlocated
      refine ⟨lib.tostring (covered hex mediaType document), covered hex mediaType document, ?_, hxml, ?_⟩
      · refine (read_written h).mpr (.inr
          (.inr ⟨hmimetype, containerMember, hcontainerMember, hcontainerName, ?_⟩))
        rw [if_pos hcase.symm]
      · rw [rootfilePath_covered]
        exact hlocated
    · rw [if_neg hcase] at hlocated
      refine ⟨data₀, container, ?_, hcontainer, hlocated ▸ hrootfile⟩
      refine (read_written h).mpr (.inr
        (.inr ⟨hmimetype, containerMember, hcontainerMember, hcontainerName, ?_⟩))
      rw [if_neg (Ne.symm hcase)]
      exact hcontainerContent

/-- The reader gets back the cover that the writer put if and only if the limits hold with what was added,
and what the document that the container names declares first is that cover, or a member of the same
bytes. -/
theorem readCover_replaceCover_iff (hhex : IsHex hex) (h : replaceCover lib hex source payload = .ok output)
    (harchive : lib.unzip source = .ok archive) (hpackage : lib.package archive = .ok (path, document))
    (htype : imageType payload = .ok mediaType) (hlib : Documented lib archive)
    (hfresh : Fresh lib hex archive)
    (hzip : ∀ written, entries lib hex mediaType archive path document payload = .ok written →
      lib.unzip (lib.zip written) = .ok (written.map lib.stored))
    (hxml : lib.fromstring (lib.tostring (covered hex mediaType document)) =
      .ok (covered hex mediaType document)) :
    readCover lib output = .ok (some (payload, mediaType)) ↔
      ∃ path', Readable lib hex mediaType archive path document payload path' := by
  obtain ⟨written, manifest, metadata, hmanifest, hmetadata, hwritten, rfl⟩ :=
    replaceCover_written h harchive hpackage htype
  have hpackaged := package_ok.mp hpackage
  obtain ⟨copies, name, hname, rfl, hframe⟩ := entries_ok hwritten hpackaged.nodup hhex hfresh.names
  have hidentifier := resolve_filename hhex hname
  have hunzip : lib.unzip (lib.zip (rewritten copies name payload)) =
      .ok ((rewritten copies name payload).map lib.stored) :=
    hzip _ hwritten
  have hreread : ∀ path' document', _ := fun path' document' =>
    @packaged_written lib hex mediaType path archive document payload copies name hframe hhex hpackaged
      hlib hfresh htype
      hname hxml path' document'
  have hids : ∀ e ∈ document.iter, e.get "id" ≠ some (identifier hex) := by
    intro e he hid
    obtain ⟨raw, hraw, hdocument⟩ := hpackaged.document
    obtain ⟨member, hmember, -, hcontent⟩ := read_source hraw
    exact (hfresh.documents member hmember raw document hcontent hdocument e he _ (mem_attrib hid)).1 rfl
  have hfirst : (covered hex mediaType document).iter.find?
      (declares (coverIds (covered hex mediaType document).iter)) =
      some ((survivor document).getD (coverItem (identifier hex) (filename hex mediaType) mediaType)) :=
    find?_declares hmanifest hmetadata hids
  -- What is read of a name that is not the new one's is what the source's member has now.
  have hbytes : ∀ target, ¬ (identifier hex).toList <:+: target.toList →
      read ((rewritten copies name payload).map lib.stored) target = .ok payload →
        HasBytes lib archive path (covered hex mediaType document) target payload := by
    intro target htarget hread
    rcases (read_written hframe).mp hread with ⟨-, hmedia⟩ | ⟨rfl, -⟩ | hbytes
    · exact absurd hmedia (media_ne_payload htype)
    · exact absurd hidentifier htarget
    · exact hbytes
  constructor
  · intro hok
    obtain ⟨archive', path', document', item, href, target, info, harchive', hpackaged', hitem, hhref,
      htarget, hinfo, -, hcontent, -⟩ := readCover_ok.mp hok
    obtain rfl := Except.ok.inj (hunzip.symm.trans harchive')
    obtain ⟨hne, hfits, hlocated, data, hdata, hdocument'⟩ := (hreread path' document').mp hpackaged'
    have hread : read ((rewritten copies name payload).map lib.stored) target = .ok payload := by
      unfold read
      rw [hinfo]
      exact hcontent
    refine ⟨path', hfits, hlocated, hne, ?_, ?_⟩
    · rintro rfl e he
      obtain ⟨-, member, hmember, hmemberName, htext⟩ := hdata
      rw [if_pos rfl] at htext
      rw [← htext, hxml] at hdocument'
      cases hdocument'
      rw [hitem, he, Option.getD_some] at hfirst
      cases hfirst
      have hcleared : item ∈ (cleared document).iter :=
        Element.iterThrough_subset (List.mem_of_find?_eq_some he)
      have hbase : path' ∈ "" :: archive.map (·.filename) :=
        List.mem_cons_of_mem _ (hmemberName ▸ List.mem_map_of_mem hmember)
      have hother := cleared_fresh hpackaged hfresh hcleared (by decide) hbase hhref htarget
      exact ⟨href, target, hhref, htarget, hbytes target hother hread⟩
    · intro hother
      have hsource := hdata
      obtain ⟨-, member, hmember, hmemberName, hmemberContent⟩ := hsource
      rw [if_neg hother] at hmemberContent
      have hbase : path' ∈ "" :: archive.map (·.filename) :=
        List.mem_cons_of_mem _ (hmemberName ▸ List.mem_map_of_mem hmember)
      have hforeign := (hfresh.documents member hmember data document' hmemberContent hdocument' item
        (List.mem_of_find?_eq_some hitem) _ (mem_attrib hhref)).2 path' hbase target htarget
      exact ⟨data, document', item, hdata, hdocument', hitem, href, target, hhref, htarget,
        hbytes target hforeign hread⟩
  · rintro ⟨path', hreadable⟩
    -- A name with these bytes is read back as the cover.
    have hcover : ∀ document' item href target data,
        HasBytes lib archive path (covered hex mediaType document) path' data →
        lib.fromstring data = .ok document' →
        document'.iter.find? (declares (coverIds document'.iter)) = some item → item.get "href" = some href →
        resolve path' href = .ok target →
        read ((rewritten copies name payload).map lib.stored) target = .ok payload →
        readCover lib (lib.zip (rewritten copies name payload)) = .ok (some (payload, mediaType)) := by
      intro document' item href target data hdata hdocument' hitem hhref htarget hread
      have hpackaged' := (hreread path' document').mpr
        ⟨hreadable.package, hreadable.fits, hreadable.located, data, hdata, hdocument'⟩
      obtain ⟨info, hinfo, hcontent⟩ := bind_eq_ok.mp hread
      have hsize : info.fileSize ≤ maxCoverBytes := by
        obtain ⟨hmem, -⟩ := getInfo_ok hinfo
        obtain ⟨entry, -, rfl⟩ := List.mem_map.mp hmem
        have hdata : entry.data = payload := Except.ok.inj hcontent
        show entry.data.length ≤ maxCoverBytes
        rw [hdata]
        exact (payload_bounds htype).2
      exact readCover_ok.mpr ⟨_, path', document', item, href, target, info, hunzip, hpackaged', hitem, hhref,
        htarget, hinfo, hsize, hcontent, htype⟩
    by_cases hcase : path' = path
    · subst hcase
      obtain ⟨raw, hraw, -⟩ := hpackaged.document
      obtain ⟨member, hmember, hmemberName, -⟩ := read_source hraw
      have hdata : HasBytes lib archive path' (covered hex mediaType document) path'
          (lib.tostring (covered hex mediaType document)) :=
        ⟨hreadable.package, member, hmember, hmemberName, by rw [if_pos rfl]⟩
      cases hsurvivor : survivor document with
      | none =>
        rw [hsurvivor, Option.getD_none] at hfirst
        exact hcover _ _ (filename hex mediaType) name _ hdata hxml hfirst rfl hname
          ((read_written hframe).mpr (.inr (.inl ⟨rfl, rfl⟩)))
      | some e =>
        rw [hsurvivor, Option.getD_some] at hfirst
        obtain ⟨href, target, hhref, htarget, htargetBytes⟩ := hreadable.same rfl e hsurvivor
        exact hcover _ e href target _ hdata hxml hfirst hhref htarget
          ((read_written hframe).mpr (.inr (.inr htargetBytes)))
    · obtain ⟨data, document₂, e, hdata, hdocument₂, hitem, href, target, hhref, htarget, htargetBytes⟩ :=
        hreadable.other hcase
      exact hcover document₂ e href target data hdata hdocument₂ hitem hhref htarget
        ((read_written hframe).mpr (.inr (.inr htargetBytes)))

end

section
variable {document : Element} {size size' : ℕ}

theorem sample_known {root : Element} {data : Bytes}
    (h : (sampleLibraries document).fromstring data = .ok root) : root ∈ sampleDocuments document ∧
      serializeDocument root = data := by
  have hread : readWritten serializeDocument (sampleDocuments document) "ParseError" data = .ok root := h
  unfold readWritten at hread
  split at hread
  · rename_i found hfound
    cases hread
    exact ⟨List.mem_of_find?_eq_some hfound, by simpa using List.find?_some hfound⟩
  · cases hread

theorem Sampled.unwritten (h : Sampled document size size') {member : Member}
    (hmember : member ∈ sampleArchive document) {data : Bytes} (hcontent : member.content = .ok data) :
    data ≠ serializeDocument (covered sampleHex "image/png" document) := by
  have hlengths := h.lengths
  simp only [sampleDocuments, List.map_cons, List.map_nil, List.cons.injEq] at hlengths
  obtain ⟨hcontainer, hdocument, hchapter, hcovered, -⟩ := hlengths
  have hmedia : (ascii "application/epub+zip".toList).length = 20 := by decide +kernel
  have hpng : (samplePng 1).length = 32 := by decide +kernel
  have hincreasing := h.increasing
  obtain ⟨entry, hentry, rfl⟩ := List.mem_map.mp hmember
  cases hcontent
  intro hsame
  have hlength := congrArg List.length hsame
  simp only [sampleSource, sampleEntries, List.mem_cons, List.not_mem_nil, or_false] at hentry
  rcases hentry with rfl | rfl | rfl | rfl | rfl <;> simp only at hlength <;> omega

theorem sample_documented (h : Sampled document size size') :
    Documented (sampleLibraries document) (sampleArchive document) := by
  constructor
  case stored => exact fun _ => rfl
  case media =>
    intro root hroot
    obtain ⟨hmem, hdata⟩ := sample_known hroot
    have hlength := congrArg List.length hdata
    rw [media_length] at hlength
    have hsize := (h.sizes root hmem).1
    omega
  case sizes =>
    intro member hmember data hcontent
    obtain ⟨entry, -, rfl⟩ := List.mem_map.mp hmember
    cases hcontent
    rfl

theorem sample_fresh (h : Sampled document size size') :
    Fresh (sampleLibraries document) sampleHex (sampleArchive document) := by
  refine ⟨h.fresh, fun member hmember data found hcontent hfound e he entry hentry => ?_⟩
  obtain ⟨hknown, hdata⟩ := sample_known hfound
  have hmem : e ∈ sampleContainer.iter ++ document.iter ++ sampleChapter.iter := by
    simp only [sampleDocuments, List.mem_cons, List.not_mem_nil, or_false] at hknown
    rcases hknown with rfl | rfl | rfl | rfl
    · exact List.mem_append_left _ (List.mem_append_left _ he)
    · exact List.mem_append_left _ (List.mem_append_right _ he)
    · exact List.mem_append_right _ he
    · exact absurd hdata.symm (h.unwritten hmember hcontent)
  have hentries := List.all_eq_true.mp (List.all_eq_true.mp h.unmentioned e hmem) entry hentry
  rw [decide_eq_true_eq] at hentries
  refine ⟨hentries.1, fun base hbase target htarget => ?_⟩
  have hchecked := List.all_eq_true.mp hentries.2 base hbase
  rw [htarget] at hchecked
  simpa using hchecked

theorem sample_fits (h : Sampled document size size') :
    Fits (sampleLibraries document) (sampleArchive document)
    "OEBPS/book.opf" (covered sampleHex "image/png" document) (samplePng 0) := by
  have hcount : ((sampleArchive document).filter (·.filename ≠ "mimetype")).length = 4 := rfl
  have hcovered := (h.sizes _ (List.mem_append_right [_, _, _] List.mem_cons_self)).2
  have hpayload : (samplePng 0).length = 32 := by decide +kernel
  have hsum : (((sampleArchive document).filter (·.filename ≠ "mimetype")).map fun member =>
      if member.filename = "OEBPS/book.opf" then (serializeDocument
        (covered sampleHex "image/png" document)).length
      else member.fileSize).sum ≤ 4 * 1000 := by
    rw [← hcount]
    refine (List.sum_le_card_nsmul _ 1000 ?_).trans (by rw [List.length_map]; rfl)
    intro size hsize
    obtain ⟨member, hmember, rfl⟩ := List.mem_map.mp hsize
    have hmember := (h.members member (List.mem_of_mem_filter hmember)).1
    split_ifs
    · exact hcovered
    · exact hmember
  constructor
  case count => omega
  case total =>
    rw [hpayload]
    have htotal := Nat.add_le_add_right (Nat.add_le_add_left hsum 20) 32
    exact htotal.trans (by decide)
  case size =>
    show (serializeDocument _).length ≤ _
    omega
  case ratio =>
    intro member _ data _
    show data.length ≤ max 1 data.length * 100
    omega

end

theorem readCover_replaceCover_sample :
    readCover (sampleLibraries sampleDocument) (zipStored (sampleCovered sampleDocument)) =
      .ok (some (samplePng 0, "image/png")) := by
  have hsampled : Sampled sampleDocument 448 646 := sampleBook.property
  have hxml : (sampleLibraries sampleDocument).fromstring
      (serializeDocument (covered sampleHex "image/png" sampleDocument)) =
      .ok (covered sampleHex "image/png" sampleDocument) :=
        sample_fromstring hsampled (by simp [sampleDocuments])
  have hzip : ∀ written, entries (sampleLibraries sampleDocument) sampleHex "image/png"
      (sampleArchive sampleDocument)
      "OEBPS/book.opf" sampleDocument (samplePng 0) = .ok written →
        (sampleLibraries sampleDocument).unzip (zipStored written) =
          .ok (written.map (sampleLibraries sampleDocument).stored) := by
    intro written hwritten
    obtain rfl : sampleCovered sampleDocument = written :=
      Except.ok.inj ((sample_entries _).symm.trans hwritten)
    exact sample_unzip hsampled (List.mem_cons_of_mem _ List.mem_cons_self)
  have hreadable : Readable (sampleLibraries sampleDocument) sampleHex "image/png"
      (sampleArchive sampleDocument)
      "OEBPS/book.opf" sampleDocument (samplePng 0) "OEBPS/book.opf" := by
    have hsurvivor : survivor sampleDocument = none := by decide +kernel
    refine ⟨sample_fits hsampled, rfl, by decide, fun _ e he => ?_, fun hne => absurd rfl hne⟩
    rw [hsurvivor] at he
    cases he
  exact (readCover_replaceCover_iff sample_hex (sample_replaced hsampled)
    (sample_unzip hsampled List.mem_cons_self)
    (package_ok.mpr (sample_packaged hsampled)) sample_type (sample_documented hsampled)
    (sample_fresh hsampled) hzip hxml).mpr ⟨"OEBPS/book.opf", hreadable⟩

/-- A document whose older cover is declared one level down. -/
def nestedDocument : Element :=
  .node ⟨opf "package", [("version", "2.0")]⟩ none none
    [.node ⟨opf "metadata", []⟩ none none
        [sampleTitle,
          .node ⟨opf "x-metadata", []⟩ none none [leaf (opf "meta") [("name", "cover"), ("content", "old")]]],
      .node ⟨opf "manifest", []⟩ none none
        [sampleItem, leaf (opf "item") [("id", "old"), ("href", "old.png"), ("media-type", "image/png")]]]

def nestedBook : { document // Sampled document 452 701 } where
  val := nestedDocument
  property := by
    constructor
    case lengths => decide +kernel
    case increasing => decide
    case fresh => decide +kernel
    case unmentioned => decide +kernel
    case manifest =>
      intro hnone
      cases hnone
    case metadata =>
      intro hnone
      cases hnone

/-- The older cover is read back. -/
theorem nested_cover_read :
    Documented (sampleLibraries nestedDocument) (sampleArchive nestedDocument) ∧
      Fresh (sampleLibraries nestedDocument) sampleHex (sampleArchive nestedDocument) ∧
      replaceCover (sampleLibraries nestedDocument) sampleHex (zipStored (sampleSource nestedDocument))
        (samplePng 0) =
        .ok (zipStored (sampleCovered nestedDocument)) ∧
      (sampleLibraries nestedDocument).unzip (zipStored (sampleCovered nestedDocument)) =
        .ok ((sampleCovered nestedDocument).map (sampleLibraries nestedDocument).stored) ∧
      (sampleLibraries nestedDocument).fromstring
          ((sampleLibraries nestedDocument).tostring (covered sampleHex "image/png" nestedDocument)) =
        .ok (covered sampleHex "image/png" nestedDocument) ∧
      readCover (sampleLibraries nestedDocument) (zipStored (sampleCovered nestedDocument)) =
        .ok (some (samplePng 1, "image/png")) ∧
      samplePng 1 ≠ samplePng 0 := by
  have hsampled : Sampled nestedDocument 452 701 := nestedBook.property
  have hfresh : Fresh (sampleLibraries nestedDocument) sampleHex (sampleArchive nestedDocument) :=
    sample_fresh hsampled
  have hunzip : (sampleLibraries nestedDocument).unzip (zipStored (sampleCovered nestedDocument)) =
      .ok ((sampleCovered nestedDocument).map Entry.info) :=
    sample_unzip hsampled (List.mem_cons_of_mem _ List.mem_cons_self)
  have hxml : (sampleLibraries nestedDocument).fromstring
      (serializeDocument (covered sampleHex "image/png" nestedDocument)) =
      .ok (covered sampleHex "image/png" nestedDocument) :=
        sample_fromstring hsampled (by simp [sampleDocuments])
  have hread : readCover (sampleLibraries nestedDocument) (zipStored (sampleCovered nestedDocument)) =
      .ok (some (samplePng 1, "image/png")) := by
    apply of_toOption
    unfold readCover
    rw [hunzip]
    decide +kernel
  exact ⟨sample_documented hsampled, hfresh, sample_replaced hsampled, hunzip, hxml, hread, by decide⟩

end KenkuiServer.Api.Covers
