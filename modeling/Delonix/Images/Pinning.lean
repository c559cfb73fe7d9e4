import Delonix.Images.Reference
import Delonix.Library.Checks
import Mathlib.Data.List.Infix

/-! What a digest in a reference guarantees. It covers what the registry serves for it, which may
be an index of manifests. The puller compares with a digest of one algorithm only, while the gate
takes every `@` for a pin.
-/

namespace Delonix.Images

open Delonix.Library.Text
open Delonix.Library.Checks

abbrev Bytes := List UInt8

inductive PullError where
  | registry (why : String)
  | digestMismatch (why : String)
  deriving DecidableEq, Repr

/-- An answer of the registry to a request for a manifest. -/
structure Served where
  contentType : List Char
  body : Bytes

/-- `str::eq_ignore_ascii_case`. -/
def eqIgnoreAsciiCase (left right : List Char) : Bool :=
  left.map Char.toLower == right.map Char.toLower

def isIndex (contentType : List Char) : Bool :=
  decide ("index".toList <:+: contentType) || decide ("manifest.list".toList <:+: contentType)

section

variable (sha256Hex : Bytes → List Char)

/-- A reference that is a `sha256:` digest has to be the hash of the bytes. -/
def verifyManifestDigest (reference : List Char) (manifest : Bytes) : Except PullError Unit :=
  match stripStart "sha256:".toList reference with
  | some want =>
      let got := sha256Hex manifest
      if eqIgnoreAsciiCase got want then .ok ()
      else
        .error (.digestMismatch ("manifest digest mismatch: reference pins sha256:"
          ++ String.ofList want ++ " but the registry served a manifest hashing to sha256:"
          ++ String.ofList got
          ++ " — refusing (possible compromised registry or MITM)"))
  | none => .ok ()

/-- The manifest a pull installs. `serve` answers for one repository of one host; `pick`
reads the digest of the wanted platform from an index.
-/
def pullManifest (serve : List Char → List Char → List Char → Except PullError Served)
    (pick : Bytes → Except PullError (List Char)) (image : String)
    : Except PullError Bytes := do
  let ⟨host, repo, reference⟩ := parseReference image
  let served ← serve host repo reference
  verifyManifestDigest sha256Hex reference served.body
  if isIndex served.contentType then
    let digest ← pick served.body
    let sub ← serve host repo digest
    verifyManifestDigest sha256Hex digest sub.body
    return sub.body
  else
    return served.body

/-- The bytes hash to the digest as it is written, letter case aside. -/
def HashesTo (digest : List Char) (bytes : Bytes) : Prop :=
  ∃ hex, digest = "sha256:".toList ++ hex ∧ eqIgnoreAsciiCase (sha256Hex bytes) hex = true

/-- The digest covers the manifest: bytes that hash to it were served for it, and they are the
manifest, or an index that names the digest the manifest was served for.
-/
def Covers (serve : List Char → List Char → List Char → Except PullError Served)
    (pick : Bytes → Except PullError (List Char)) (image : String) (digest : List Char)
    (manifest : Bytes) : Prop :=
  ∃ served, serve (parseReference image).host (parseReference image).repo digest = .ok served
    ∧ HashesTo sha256Hex digest served.body
    ∧ (isIndex served.contentType = false → manifest = served.body)
    ∧ (isIndex served.contentType = true → ∃ platform sub, pick served.body = .ok platform
      ∧ serve (parseReference image).host (parseReference image).repo platform = .ok sub
      ∧ manifest = sub.body
      ∧ ("sha256:".toList <+: platform → HashesTo sha256Hex platform sub.body))

/-- A pin is honoured whatever the registry answers: the digest after the first `@` covers the
manifest of every pull that succeeds. A reference the puller resolves to the tag `latest` is one
the gate takes for it.
-/
structure PinHonoured (image : String) : Prop where
  verified : ∀ before digest, image.toList = before ++ '@' :: digest → '@' ∉ before
    → ∀ serve pick manifest, pullManifest sha256Hex serve pick image = .ok manifest
    → Covers sha256Hex serve pick image digest manifest
  latest : (parseReference image).reference = "latest".toList → isLatest image = true

/-- The manifest of every pull that succeeds is itself what the digest after the first `@` is the
hash of.
-/
def ManifestPinned (image : String) : Prop :=
  ∀ before digest, image.toList = before ++ '@' :: digest → '@' ∉ before
    → ∀ serve pick manifest, pullManifest sha256Hex serve pick image = .ok manifest
    → HashesTo sha256Hex digest manifest

end

/-- What follows the first `@`, if there is one, begins with `sha256:`. -/
def PinsSha256 (image : String) : Prop :=
  ∀ before digest, image.toList = before ++ '@' :: digest → '@' ∉ before
    → "sha256:".toList <+: digest

/-- Behind an `@` the puller asks for all that is written there. -/
theorem reference_of_at {image : String} {before digest : List Char}
    (written : image.toList = before ++ '@' :: digest) (first : '@' ∉ before)
    : (parseReference image).reference = digest := by
  simp only [parseReference, nameAndReference, written, splitOnce_append digest first]

theorem verifyManifestDigest_eq_ok {sha256Hex : Bytes → List Char} {reference : List Char}
    {manifest : Bytes} (pinned : "sha256:".toList <+: reference)
    (passed : verifyManifestDigest sha256Hex reference manifest = .ok ())
    : HashesTo sha256Hex reference manifest := by
  obtain ⟨want, rfl⟩ := pinned
  rw [verifyManifestDigest, stripStart_eq_some.mpr rfl] at passed
  simp only at passed
  split at passed
  case isTrue same => exact ⟨want, rfl, same⟩
  case isFalse => contradiction

/-- Without an `@`, the tag that the puller reads and the tag that the gate reads are both
`latest` or neither is.
-/
theorem isLatest_of_reference {image : String} (plain : '@' ∉ image.toList)
    (asked : (parseReference image).reference = "latest".toList)
    : isLatest image = true := by
  have noAt : image.toList.contains '@' = false := by simpa using plain
  simp only [parseReference, nameAndReference, splitOnce_eq_none plain, cutTag] at asked
  rw [isLatest, noAt]
  split at asked
  case h_1 name tag found =>
    obtain ⟨whole, _⟩ := splitOnce_eq_some found
    simp only [Option.getD_some] at asked
    have last : rsplitOnce ':' (lastSegment image.toList).2 = some (name, tag) := by
      rw [whole]
      exact rsplitOnce_append name (by rw [asked]; decide)
    simp [last, asked]
  case h_2 none =>
    simp [rsplitOnce_eq_none (not_mem_of_splitOnce_eq_none none)]

/-- Whatever the registry serves, a pin of the algorithm that the puller compares is honoured. -/
theorem pinHonoured_of_pinsSha256 (sha256Hex : Bytes → List Char) (image : String)
    (pins : PinsSha256 image)
    : PinHonoured sha256Hex image := by
  constructor
  · intro before digest written first serve pick manifest pulled
    simp only [pullManifest, reference_of_at written first] at pulled
    obtain ⟨served, answered, pulled⟩ := bind_eq_ok.mp pulled
    obtain ⟨_, passed, pulled⟩ := bind_eq_ok.mp pulled
    refine ⟨served, answered,
      verifyManifestDigest_eq_ok (pins before digest written first) passed, ?_, ?_⟩
    · intro single
      rw [if_neg (by simp [single])] at pulled
      exact (Except.ok.inj pulled).symm
    · intro index
      rw [if_pos index] at pulled
      obtain ⟨platform, picked, pulled⟩ := bind_eq_ok.mp pulled
      obtain ⟨sub, fetched, pulled⟩ := bind_eq_ok.mp pulled
      obtain ⟨_, sub_passed, pulled⟩ := bind_eq_ok.mp pulled
      exact ⟨platform, sub, picked, fetched, (Except.ok.inj pulled).symm,
        fun pinned => verifyManifestDigest_eq_ok pinned sub_passed⟩
  · intro asked
    by_cases plain : '@' ∈ image.toList
    · obtain ⟨before, digest, written, first⟩ := List.eq_append_cons_of_mem plain
      rw [reference_of_at written first] at asked
      have pinned := pins before digest written first
      rw [asked] at pinned
      exact absurd pinned (by decide)
    · exact isLatest_of_reference plain asked

def asBytes (text : String) : Bytes := text.toList.map fun c => UInt8.ofNat c.toNat

/-- A manifest without layers. -/
def emptyManifest : Bytes :=
  asBytes "\x7b\"schemaVersion\":2,\"config\":\x7b"
    ++ asBytes ("\"mediaType\":\"application/vnd.oci.image.config.v1+json\",\"digest\":"
      ++ "\"sha256:44136fa355b3678a1146ad16f7e8649e94fb4fc21fe77e8310c060f61caaff8a\","
      ++ "\"size\":2\x7d,\"layers\":[]\x7d")

/-- The hash of this manifest, and of the index that names it. -/
def manifestHex : List Char :=
  'c' :: "18d69ac3ba3e775ab5837ebd5e526dde0bcef2c72d0cfb26c6ccec7645245e5".toList

def indexHex : List Char :=
  'b' :: "01a3516ce281c809d764a50f0b3fb0797282b6da9e1348ecfcf677035d98772".toList

def digestOf (hex : List Char) : List Char := "sha256:".toList ++ hex

def indexBody : Bytes :=
  asBytes "\x7b\"schemaVersion\":2,\"manifests\":"
    ++ asBytes ("[\x7b\"mediaType\":\"application/vnd.oci.image.manifest.v1+json\",\"digest\":"
      ++ "\"sha256:c18d69ac3ba3e775ab5837ebd5e526dde0bcef2c72d0cfb26c6ccec7645245e5\","
      ++ "\"size\":189\x7d]\x7d")

/-- SHA-256 on the index and on the manifest. -/
def sha256Of (bytes : Bytes) : List Char :=
  if bytes = indexBody then indexHex else if bytes = emptyManifest then manifestHex else []

/-- A registry that serves the manifest under its own digest, and the index for anything else. -/
def serveIndex (_host _repo reference : List Char) : Except PullError Served :=
  if reference = digestOf manifestHex then
    .ok ⟨"application/vnd.oci.image.manifest.v1+json".toList, emptyManifest⟩
  else .ok ⟨"application/vnd.oci.image.index.v1+json".toList, indexBody⟩

def pinnedAlpine : String :=
  "alpine@sha256:b01a3516ce281c809d764a50f0b3fb0797282b6da9e1348ecfcf677035d98772"

theorem pinnedAlpine_text : pinnedAlpine.toList = "alpine".toList ++ '@' :: digestOf indexHex := by
  decide +kernel

theorem sha256Of_index : sha256Of indexBody = indexHex := if_pos rfl

theorem sha256Of_manifest : sha256Of emptyManifest = manifestHex := by
  have differs : emptyManifest ≠ indexBody := by
    -- The bytes at position 20 are those of `c` and `m`.
    intro same
    have byte := congrArg (·[20]?) same
    simp only [emptyManifest, indexBody] at byte
    rw [List.getElem?_append_left (by decide +kernel),
      List.getElem?_append_left (by decide +kernel)] at byte
    revert byte
    decide +kernel
  exact (if_neg differs).trans (if_pos rfl)

theorem verifyManifestDigest_digestOf {sha256Hex : Bytes → List Char} {hex : List Char}
    {manifest : Bytes} (hash : sha256Hex manifest = hex)
    : verifyManifestDigest sha256Hex (digestOf hex) manifest = .ok () := by
  have cut : stripStart "sha256:".toList (digestOf hex) = some hex := stripStart_eq_some.mpr rfl
  rw [verifyManifestDigest, cut]
  simp only [hash, eqIgnoreAsciiCase, beq_self_eq_true, if_true]

/-- A pull of an index installs the manifest it names, if both hash to their digests. -/
theorem pullManifest_index {sha256Hex : Bytes → List Char} {image : String} {before : List Char}
    {serve : List Char → List Char → List Char → Except PullError Served}
    {pick : Bytes → Except PullError (List Char)} {hex subHex : List Char} {served sub : Served}
    (written : image.toList = before ++ '@' :: digestOf hex) (first : '@' ∉ before)
    (answered : ∀ host repo, serve host repo (digestOf hex) = .ok served)
    (index : isIndex served.contentType = true) (hash : sha256Hex served.body = hex)
    (picked : pick served.body = .ok (digestOf subHex))
    (fetched : ∀ host repo, serve host repo (digestOf subHex) = .ok sub)
    (subHash : sha256Hex sub.body = subHex)
    : pullManifest sha256Hex serve pick image = .ok sub.body := by
  simp only [pullManifest, reference_of_at written first, answered, bind, Except.bind,
    verifyManifestDigest_digestOf hash, index, if_true, picked, fetched,
    verifyManifestDigest_digestOf subHash]
  rfl

theorem pull_pinnedAlpine
    : pullManifest sha256Of serveIndex (fun _ => .ok (digestOf manifestHex)) pinnedAlpine
      = .ok emptyManifest := by
  have other : digestOf indexHex ≠ digestOf manifestHex := by
    intro same
    have hex := List.append_cancel_left same
    exact absurd (List.cons.inj hex).1 (by decide)
  have index (host repo : List Char) : serveIndex host repo (digestOf indexHex)
      = .ok ⟨"application/vnd.oci.image.index.v1+json".toList, indexBody⟩ :=
    if_neg other
  have manifest (host repo : List Char) : serveIndex host repo (digestOf manifestHex)
      = .ok ⟨"application/vnd.oci.image.manifest.v1+json".toList, emptyManifest⟩ :=
    if_pos rfl
  exact pullManifest_index pinnedAlpine_text (by decide) index (by decide +kernel)
    sha256Of_index rfl manifest sha256Of_manifest

/-- The pin covers the manifest that the index names. -/
theorem pinHonoured_of_pinsSha256_index
    : PinsSha256 pinnedAlpine
      ∧ PinHonoured sha256Of pinnedAlpine
      ∧ Covers sha256Of serveIndex (fun _ => .ok (digestOf manifestHex)) pinnedAlpine
        (digestOf indexHex) emptyManifest := by
  have pins : PinsSha256 pinnedAlpine := by
    intro before digest written first
    have cut := splitOnce_append digest first
    rw [← written, pinnedAlpine_text, splitOnce_append _ (by decide)] at cut
    rw [← (Prod.mk.inj (Option.some.inj cut)).2]
    exact ⟨indexHex, rfl⟩
  have honoured := pinHonoured_of_pinsSha256 sha256Of pinnedAlpine pins
  exact ⟨pins, honoured,
    honoured.verified _ _ pinnedAlpine_text (by decide) _ _ _ pull_pinnedAlpine⟩

/-- The manifest that the index names has another hash than the pin, and behind an `@` the puller
fetches even the tag `latest`, which the gate then takes for pinned.
-/
theorem index_manifest_not_pinned
    : ¬ ManifestPinned sha256Of pinnedAlpine
      ∧ isLatest "alpine@latest" = false
      ∧ (parseReference "alpine@latest").reference = "latest".toList := by
  refine ⟨fun claimed => ?_, by decide +kernel, by decide +kernel⟩
  obtain ⟨hex, digest, same⟩ :=
    claimed _ _ pinnedAlpine_text (by decide) _ _ _ pull_pinnedAlpine
  rw [← List.append_cancel_left digest] at same
  have other : eqIgnoreAsciiCase manifestHex indexHex = false := by
    rw [eqIgnoreAsciiCase, manifestHex, indexHex, List.map_cons, List.map_cons,
      List.cons_beq_cons, show ('c'.toLower == 'b'.toLower) = false by decide, Bool.false_and]
  rw [sha256Of_manifest, other] at same
  cases same

end Delonix.Images
