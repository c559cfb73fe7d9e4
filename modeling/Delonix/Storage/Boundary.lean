import Delonix.Library.Checks
import Delonix.Library.Json
import Delonix.Storage.Helper

/-! The helper acts within the allowlist and as its caller, and for what it admits the engine gets
from it what its driver would answer.
-/

namespace Delonix.Storage

open Delonix.Library.Checks
open Delonix.Library.Json
open Delonix.Library.Text

variable {Host : Type}

-----------------------------------------------------------------------------------------
-- The calls of a driver
-----------------------------------------------------------------------------------------

/-- A call of a driver, which is named as the allowlist names it. -/
inductive Call where
  | probe (driver : String) (pool : PoolRef)
  | usage (driver : String) (pool : PoolRef)
  | allocate (driver : String) (pool : PoolRef) (req : VolumeRequest) (owner : Owner)
  | release (driver : String) (pool : PoolRef) (volume : String) (owner : Owner)

/-- A driver that writes down how it is called. -/
def Driver.recorded (name : String) (driver : Driver Host) : Driver (Host × List Call) where
  id := driver.id
  required := driver.required
  probe pool host :=
    let (answer, after) := driver.probe pool host.1
    (answer, after, host.2 ++ [.probe name pool])
  allocate pool req owner host :=
    let (answer, after) := driver.allocate pool req owner host.1
    (answer, after, host.2 ++ [.allocate name pool req owner])
  release pool volume owner host :=
    let (answer, after) := driver.release pool volume owner host.1
    (answer, after, host.2 ++ [.release name pool volume owner])
  usage pool host :=
    let (answer, after) := driver.usage pool host.1
    (answer, after, host.2 ++ [.usage name pool])

def ServeContext.recorded (ctx : ServeContext Host) : ServeContext (Host × List Call) where
  pools := ctx.pools
  driver name := (ctx.driver name).map (Driver.recorded name)
  uidOf := ctx.uidOf
  parseSize := ctx.parseSize

/-- The call an operation makes for a caller. -/
def Op.call (op : Op) (uid : UInt32) (driver : String) (pool : PoolRef) : Call :=
  match op with
  | .probe => .probe driver pool
  | .usage => .usage driver pool
  | .allocate volume shape size root =>
      .allocate driver pool ⟨volume, shape, size⟩ (.of uid root)
  | .release volume root => .release driver pool volume (.of uid root)

/-- What a driver makes of it. -/
def Op.perform (op : Op) (uid : UInt32) (driver : Driver Host) (pool : PoolRef) (host : Host)
    : Except Error Outcome × Host :=
  match op with
  | .probe =>
      let (answer, host) := driver.probe pool host
      (.ok (.probe answer), host)
  | .usage =>
      let (answer, host) := driver.usage pool host
      (.ok (.usage answer), host)
  | .allocate volume shape size root =>
      let (answer, host) := driver.allocate pool ⟨volume, shape, size⟩ (.of uid root) host
      (answer.map .allocation, host)
  | .release volume root =>
      let (answer, host) := driver.release pool volume (.of uid root) host
      (answer.map fun _ => .released, host)

-----------------------------------------------------------------------------------------
-- What the helper admits
-----------------------------------------------------------------------------------------

/-- The size is no more than the pool gives one volume, where the pool says. -/
def Fits (ctx : ServeContext Host) (entry : Entry) (pool : String) (size : UInt64) : Prop :=
  ∃ max, entry.maxBytes ctx.parseSize pool = .ok max ∧ ∀ most, max = some most → size ≤ most

structure Admits (ctx : ServeContext Host) (uid : UInt32) (req : Checked) (entry : Entry)
    (driver : Driver Host) : Prop where
  listed : ctx.pools req.pool = some entry
  allowed : allows ctx.uidOf entry uid = true
  known : ctx.driver entry.driver = some driver
  privileged : driver.required req.op.poolOp ≠ .unprivileged
  fits : ∀ volume shape size root, req.op = .allocate volume shape size root →
    Fits ctx entry req.pool size

section

variable {fromSlice : ByteArray → Except String Request} {ctx : ServeContext Host}
variable {bytes : ByteArray} {uid : UInt32}

/-- An admitted request is what the driver makes of it. -/
theorem serve_of_admits {req : Checked} {entry : Entry} {driver : Driver Host}
    (checked : (Request.decode fromSlice bytes >>= Request.check) = .ok req)
    (admits : Admits ctx uid req entry driver) (host : Host)
    : serve fromSlice ctx bytes uid host = req.op.perform uid driver ⟨req.pool, entry⟩ host := by
  obtain ⟨listed, allowed, known, privileged, fits⟩ := admits
  rw [serve, checked]
  simp only [listed, allowed, known, privileged, Bool.not_true, Bool.false_eq_true, ↓reduceIte]
  cases is : req.op with
  | probe => simp only [Op.perform]
  | usage => simp only [Op.perform]
  | release volume root => simp only [Op.perform]
  | allocate volume shape size root =>
      obtain ⟨max, limit, small⟩ := fits volume shape size root is
      have below : ¬ max.any (size > ·) = true := by
        cases max with
        | none => exact Bool.false_ne_true
        | some most => simpa using small most rfl
      simp only [limit, below, Bool.false_eq_true, ↓reduceIte, Op.perform]

/-- Everything else is refused before a driver is asked. -/
theorem serve_cases (host : Host)
    : (∃ e, serve fromSlice ctx bytes uid host = (.error e, host))
      ∨ ∃ request req entry driver, Request.decode fromSlice bytes = .ok request
        ∧ request.check = .ok req ∧ Admits ctx uid req entry driver := by
  cases checked : Request.decode fromSlice bytes >>= Request.check with
  | error e => exact .inl ⟨e, by rw [serve, checked]⟩
  | ok req =>
      obtain ⟨request, decoded, checks⟩ := bind_eq_ok.mp checked
      rw [serve, checked]
      dsimp only
      cases listed : ctx.pools req.pool with
      | none => exact .inl ⟨_, rfl⟩
      | some entry =>
          dsimp only
          cases allowed : allows ctx.uidOf entry uid with
          | false => exact .inl ⟨_, rfl⟩
          | true =>
              cases known : ctx.driver entry.driver with
              | none => exact .inl ⟨_, rfl⟩
              | some driver =>
                  by_cases own : driver.required req.op.poolOp = .unprivileged
                  · simp only [own, Bool.not_true, Bool.false_eq_true, ↓reduceIte]
                    exact .inl ⟨_, rfl⟩
                  · by_cases fits : ∀ volume shape size root,
                        req.op = .allocate volume shape size root → Fits ctx entry req.pool size
                    · exact .inr ⟨request, req, entry, driver, decoded, checks, listed, allowed,
                        known, own, fits⟩
                    · push Not at fits
                      obtain ⟨volume, shape, size, root, is, above⟩ := fits
                      rw [is] at own
                      refine .inl ?_
                      simp only [own, is, Bool.not_true, Bool.false_eq_true, ↓reduceIte]
                      cases limit : entry.maxBytes ctx.parseSize req.pool with
                      | error e => exact ⟨e, rfl⟩
                      | ok max =>
                          have beyond : max.any (size > ·) = true := by
                            by_contra small
                            refine above ⟨max, limit, ?_⟩
                            rintro most rfl
                            simpa using small
                          simp only [beyond, ↓reduceIte]
                          exact ⟨_, rfl⟩

/-- Recording changes nothing the helper decides by. -/
theorem admits_of_recorded {req : Checked} {entry : Entry} {driver : Driver (Host × List Call)}
    (admits : Admits ctx.recorded uid req entry driver)
    : ∃ inner, driver = Driver.recorded entry.driver inner ∧ Admits ctx uid req entry inner := by
  obtain ⟨listed, allowed, known, privileged, fits⟩ := admits
  obtain ⟨inner, is, rfl⟩ := Option.map_eq_some_iff.mp known
  exact ⟨inner, rfl, listed, allowed, is, privileged, fits⟩

theorem calls_of_perform (op : Op) (driver : Driver Host) (name : String) (pool : PoolRef)
    (host : Host × List Call)
    : (op.perform uid (driver.recorded name) pool host).2.2 = host.2 ++ [op.call uid name pool] := by
  cases op with
  | probe => rfl
  | usage => rfl
  | allocate volume shape size root => rfl
  | release volume root => rfl

/-- A driver is called for an admitted request only, once, and with the caller as the owner. -/
theorem admits_of_call {host : Host} {call : Call}
    (made : call ∈ (serve fromSlice ctx.recorded bytes uid (host, [])).2.2)
    : ∃ request req entry driver, Request.decode fromSlice bytes = .ok request
      ∧ request.check = .ok req ∧ Admits ctx uid req entry driver
      ∧ call = req.op.call uid entry.driver ⟨req.pool, entry⟩ := by
  obtain ⟨e, refused⟩ | ⟨request, req, entry, driver, decoded, checked, admits⟩ :=
    serve_cases (host, [])
  · rw [refused] at made
    cases made
  · have both : (Request.decode fromSlice bytes >>= Request.check) = .ok req :=
      bind_eq_ok.mpr ⟨request, decoded, checked⟩
    obtain ⟨inner, rfl, within⟩ := admits_of_recorded admits
    rw [serve_of_admits both admits, calls_of_perform] at made
    exact ⟨request, req, entry, inner, decoded, checked, within, List.mem_singleton.mp made⟩

end

-----------------------------------------------------------------------------------------
-- The request crosses
-----------------------------------------------------------------------------------------

theorem isControl_of_name {c : Char}
    (name : (c.isAlphanum || c == '.' || c == '_' || c == '-') = true)
    : isControl c = false := by
  simp only [Bool.or_eq_true, beq_iff_eq] at name
  obtain ((letter | rfl) | rfl) | rfl := name
  · have range := isAlphanum_iff.mp letter
    simp only [isControl, Bool.or_eq_false_iff, Bool.and_eq_false_iff, decide_eq_false_iff_not]
    omega
  · rfl
  · rfl
  · rfl

/-- A text without control characters, of at most so many bytes. -/
def Short (most : Nat) (s : String) : Prop := Visible s ∧ s.utf8ByteSize ≤ most

theorem short_volume {name : String} (valid : validVolumeName name = true) : Short 63 name := by
  rw [validVolumeName] at valid
  cases chars : name.toList with
  | nil => simp [chars] at valid
  | cons first rest =>
      simp only [chars, Bool.and_eq_true, decide_eq_true_eq] at valid
      refine ⟨?_, valid.1.1.1⟩
      intro c member
      rw [chars] at member
      exact isControl_of_name (List.all_eq_true.mp valid.2 c member)

theorem short_pool {name : String} (valid : validPoolName name = true) : Short 63 name := by
  have lower {c : Char} (low : (c.isLower || c.isDigit) = true) : c.isAlphanum = true := by
    rw [Bool.or_eq_true] at low
    exact low.elim isAlphanum_of_isLower isAlphanum_of_isDigit
  rw [validPoolName] at valid
  cases chars : name.toList with
  | nil => simp [chars] at valid
  | cons first rest =>
      simp only [chars, Bool.and_eq_true, decide_eq_true_eq] at valid
      obtain ⟨⟨⟨size, start⟩, later⟩, -⟩ := valid
      refine ⟨?_, size⟩
      intro c member
      rw [chars] at member
      apply isControl_of_name
      rcases List.mem_cons.mp member with rfl | member
      · simp [lower start]
      · have one := List.all_eq_true.mp later c member
        cases low : (c.isLower || c.isDigit) with
        | true => simp [lower low]
        | false =>
            rw [low, Bool.false_or] at one
            simp only [Bool.or_eq_true] at one ⊢
            rcases one with (dot | score) | dash
            · exact .inl (.inl (.inr dot))
            · exact .inl (.inr score)
            · exact .inr dash

theorem short_root {root : String} (valid : validRoot root = true) : Short 1024 root := by
  simp only [validRoot, Bool.and_eq_true, decide_eq_true_eq, Bool.not_eq_true'] at valid
  obtain ⟨⟨⟨⟨-, size⟩, visible⟩, -⟩, -⟩ := valid
  exact ⟨fun c member => by simpa using List.any_eq_false.mp visible c member, size⟩

theorem short_label (shape : VolumeShape) : Short 10 shape.label := by
  cases shape
  · exact ⟨fun c member => by
      have all : (VolumeShape.label .filesystem).toList.all fun c => !isControl c := by decide
      simpa using List.all_eq_true.mp all c member, by decide⟩
  · exact ⟨fun c member => by
      have all : (VolumeShape.label .block).toList.all fun c => !isControl c := by decide
      simpa using List.all_eq_true.mp all c member, by decide⟩

theorem fieldSize_text (key : String) {value : String} {most : Nat} (short : Short most value)
    : fieldSize (key, .text value) ≤ byteCount (quoted key) + 2 * most + 4 := by
  have size := byteCount_quoted short.1
  have := short.2
  simp only [fieldSize, write]
  omega

/-- A request whose fields are in bounds is one the helper reads. -/
theorem size_encode {r : Request} (op : Short 8 r.op) (pool : Short 63 r.pool)
    (volume : ∀ v ∈ r.volume, Short 63 v) (shape : ∀ s ∈ r.shape, Short 10 s)
    (root : ∀ root ∈ r.root, Short 1024 root)
    : r.encode.size ≤ maxRequestBytes := by
  have optional {α : Type} (o : Option α) (field : α → String × Value) {most : Nat}
      (bound : ∀ v ∈ o, fieldSize (field v) ≤ most)
      : ((o.map field).toList.map fieldSize).sum ≤ most := by
    cases o with
    | none => simp
    | some v => simpa using bound v rfl
  have number (key : String) {n : Nat} (k : Nat) (positive : 0 < k) (small : n < 10 ^ k)
      : fieldSize (key, .number n) ≤ byteCount (quoted key) + k + 2 := by
    have digits := byteCount_decimal positive small
    simp only [fieldSize, write]
    omega
  have v := number "v" 10 (by decide) (r.v.toNat_lt.trans (by decide))
  have op := fieldSize_text "op" op
  have pool := fieldSize_text "pool" pool
  have volume := optional r.volume (fun v => ("volume", .text v)) fun v is =>
    fieldSize_text "volume" (volume v is)
  have shape := optional r.shape (fun s => ("shape", .text s)) fun s is =>
    fieldSize_text "shape" (shape s is)
  have size := optional r.sizeBytes (fun n => ("size_bytes", .number n.toNat)) fun n _ =>
    number "size_bytes" 20 (by decide) (n.toNat_lt.trans (by decide))
  have root := optional r.root (fun root => ("root", .text root)) fun s is =>
    fieldSize_text "root" (root s is)
  have keys : (["v", "op", "pool", "volume", "shape", "size_bytes", "root"].map fun key =>
      byteCount (quoted key)) = [3, 4, 6, 8, 7, 12, 6] := by decide
  simp only [List.map_cons, List.map_nil, List.cons.injEq, and_true] at keys
  rw [Request.encode, String.toByteArray_ofList, size_utf8Encode, Request.fields]
  simp only [List.cons_append, byteCount_object, List.map_cons, List.map_append, List.sum_cons,
    List.sum_append, maxRequestBytes, List.nil_append]
  omega

/-- What the reader of requests is relied on for: it reads back what was written. -/
def RoundTrips (fromSlice : ByteArray → Except String Request) : Prop :=
  ∀ r : Request, fromSlice r.encode = .ok r

theorem decode_encode {fromSlice : ByteArray → Except String Request}
    (reads : RoundTrips fromSlice) {r : Request} (small : r.encode.size ≤ maxRequestBytes)
    : Request.decode fromSlice r.encode = .ok r := by
  rw [Request.decode, if_neg (Nat.not_lt.mpr small), reads]

theorem check_new {pool : String} (valid : validPoolName pool = true)
    : (Request.new "probe" pool).check = .ok ⟨pool, .probe⟩
      ∧ (Request.new "usage" pool).check = .ok ⟨pool, .usage⟩ := by
  constructor <;> simp [Request.check, Request.checkOp, Request.new, Request.given, valid, pure,
    Except.pure, bind, Except.bind]

theorem check_allocate {pool volume root : String} {shape : VolumeShape} {size : UInt64}
    (valid : validPoolName pool = true) (named : validVolumeName volume = true)
    (positive : size ≠ 0) (small : size ≤ maxSizeBytes) (rooted : validRoot root = true)
    : { Request.new "allocate" pool with
        volume := some volume
        shape := some shape.label
        sizeBytes := some size
        root := some root : Request }.check = .ok ⟨pool, .allocate volume shape size root⟩ := by
  have within : ¬ (size = 0 ∨ size > maxSizeBytes) := by
    simp only [positive, false_or, gt_iff_lt, UInt64.not_lt]
    exact small
  simp [Request.check, Request.checkOp, Request.new, Request.checkShape, Request.checkSize,
    Request.checkVolume, Request.checkRoot, valid, named, within, rooted, pure, Except.pure, bind,
    Except.bind]

theorem check_release {pool volume root : String} (valid : validPoolName pool = true)
    (named : validVolumeName volume = true) (rooted : validRoot root = true)
    : { Request.new "release" pool with
        volume := some volume
        root := some root : Request }.check = .ok ⟨pool, .release volume root⟩ := by
  simp [Request.check, Request.checkOp, Request.new, Request.given, Request.checkVolume,
    Request.checkRoot, valid, named, rooted, pure, Except.pure, bind, Except.bind]

-----------------------------------------------------------------------------------------
-- The engine's side
-----------------------------------------------------------------------------------------

/-- The helper has this pool, with this driver, for this caller. -/
structure Serves (ctx : ServeContext Host) (uid : UInt32) (driver : Driver Host) (pool : PoolRef)
    : Prop where
  named : validPoolName pool.name = true
  listed : ctx.pools pool.name = some pool.entry
  allowed : allows ctx.uidOf pool.entry uid = true
  known : ctx.driver pool.entry.driver = some driver

/-- A probe and a look at the usage change nothing. -/
structure NeverWrites (driver : Driver Host) : Prop where
  probe : ∀ pool host, (driver.probe pool host).2 = host
  usage : ∀ pool host, (driver.usage pool host).2 = host

section

variable {fromSlice : ByteArray → Except String Request} {ctx : ServeContext Host} {uid : UInt32}
variable {inner : Driver Host} {pool : PoolRef}

/-- A driver whose requests the helper answers. -/
def routedTo (fromSlice : ByteArray → Except String Request) (ctx : ServeContext Host)
    (uid : UInt32) (inner : Driver Host) (debug : Outcome → String) : Routed Host :=
  ⟨inner, .helper fun r => serve fromSlice ctx r.encode uid, debug⟩

/-- A request that crosses and is admitted is what the driver makes of it. -/
theorem serve_request (reads : RoundTrips fromSlice) {r : Request} {req : Checked}
    (small : r.encode.size ≤ maxRequestBytes) (checked : r.check = .ok req)
    {entry : Entry} (admits : Admits ctx uid req entry inner) (host : Host)
    : serve fromSlice ctx r.encode uid host = req.op.perform uid inner ⟨req.pool, entry⟩ host :=
  serve_of_admits (bind_eq_ok.mpr ⟨r, decode_encode reads small, checked⟩) admits host

theorem short_op {op : String} (served : op ∈ ["probe", "usage", "allocate", "release"])
    : Short 8 op := by
  have all : ["probe", "usage", "allocate", "release"].all fun op =>
      (op.toList.all fun c => !isControl c) && decide (op.utf8ByteSize ≤ 8) := by decide
  have one := List.all_eq_true.mp all op served
  simp only [Bool.and_eq_true, decide_eq_true_eq] at one
  exact ⟨fun c member => by simpa using List.all_eq_true.mp one.1 c member, one.2⟩

theorem size_new {op pool : String} (served : op ∈ ["probe", "usage", "allocate", "release"])
    (valid : validPoolName pool = true)
    : (Request.new op pool).encode.size ≤ maxRequestBytes := by
  have absent {most : Nat} : ∀ v ∈ (none : Option String), Short most v := by
    intro v is
    cases is
  exact size_encode (short_op served) (short_pool valid) absent absent absent

theorem serve_probe (reads : RoundTrips fromSlice) (serves : Serves ctx uid inner pool)
    (needs : inner.required .probe ≠ .unprivileged) (host : Host)
    : serve fromSlice ctx (Request.new "probe" pool.name).encode uid host
      = (.ok (.probe (inner.probe pool host).1), (inner.probe pool host).2) :=
  serve_request reads (size_new (by simp) serves.named) (check_new serves.named).1
    ⟨serves.listed, serves.allowed, serves.known, needs, nofun⟩ host

theorem serve_usage (reads : RoundTrips fromSlice) (serves : Serves ctx uid inner pool)
    (needs : inner.required .usage ≠ .unprivileged) (host : Host)
    : serve fromSlice ctx (Request.new "usage" pool.name).encode uid host
      = (.ok (.usage (inner.usage pool host).1), (inner.usage pool host).2) :=
  serve_request reads (size_new (by simp) serves.named) (check_new serves.named).2
    ⟨serves.listed, serves.allowed, serves.known, needs, nofun⟩ host

variable (debug : Outcome → String)

theorem helper_routedTo (op : PoolOp)
    : (routedTo fromSlice ctx uid inner debug).helper op
      = if inner.required op = .helper then
          some fun r => serve fromSlice ctx r.encode uid
        else none := by
  rw [Routed.helper, routedTo]
  cases inner.required op <;> rfl

theorem routed_probe (reads : RoundTrips fromSlice) (serves : Serves ctx uid inner pool)
    (still : NeverWrites inner) (host : Host)
    : (routedTo fromSlice ctx uid inner debug).probe pool host = inner.probe pool host := by
  obtain ⟨here, looked⟩ : ∃ here, inner.probe pool host = (here, host) :=
    ⟨_, Prod.ext rfl (still.probe pool host)⟩
  have asked (needs : inner.required .probe ≠ .unprivileged) :=
    serve_probe reads serves needs host
  simp only [looked] at asked
  simp only [Routed.probe, helper_routedTo]
  simp only [routedTo, looked]
  cases needs : inner.required .probe with
  | unprivileged => cases here <;> rfl
  | delegated grant =>
      rw [needs] at asked
      simp only [reduceCtorEq, ↓reduceIte]
      cases here with
      | available => rfl
      | unavailable missing remedy => rfl
      | undetermined reason remedy => simp only [asked nofun]
  | helper =>
      rw [needs] at asked
      simp only [↓reduceIte, asked nofun]

theorem routed_usage (reads : RoundTrips fromSlice) (serves : Serves ctx uid inner pool)
    (still : NeverWrites inner) (host : Host)
    : (routedTo fromSlice ctx uid inner debug).usage pool host = inner.usage pool host := by
  obtain ⟨here, looked⟩ : ∃ here, inner.usage pool host = (here, host) :=
    ⟨_, Prod.ext rfl (still.usage pool host)⟩
  have asked (needs : inner.required .usage ≠ .unprivileged) :=
    serve_usage reads serves needs host
  simp only [looked] at asked
  simp only [Routed.usage, helper_routedTo]
  simp only [routedTo, looked]
  cases needs : inner.required .usage with
  | unprivileged => rfl
  | delegated grant =>
      rw [needs] at asked
      simp only [reduceCtorEq, ↓reduceIte, asked nofun, ite_self]
  | helper =>
      rw [needs] at asked
      simp only [↓reduceIte, asked nofun]

theorem routed_allocate (reads : RoundTrips fromSlice) (serves : Serves ctx uid inner pool)
    {req : VolumeRequest} {root : String} (named : validVolumeName req.name = true)
    (positive : req.sizeBytes ≠ 0) (small : req.sizeBytes ≤ maxSizeBytes)
    (fits : Fits ctx pool.entry pool.name req.sizeBytes) (rooted : validRoot root = true)
    (host : Host)
    : (routedTo fromSlice ctx uid inner debug).allocate pool req (.of uid root) host
      = inner.allocate pool req (.of uid root) host := by
  simp only [Routed.allocate, helper_routedTo]
  cases needs : inner.required (.allocate req.shape) with
  | unprivileged => rfl
  | delegated grant => rfl
  | helper =>
      have owned : Routed.rootOf (.of uid root) = .ok root := by rw [Routed.rootOf, Owner.parts_of]
      have admits : Admits ctx uid
          ⟨pool.name, .allocate req.name req.shape req.sizeBytes root⟩ pool.entry inner := by
        refine ⟨serves.listed, serves.allowed, serves.known, ?_, ?_⟩
        · rw [Op.poolOp, needs]
          exact nofun
        · intro volume shape size root' is
          cases is
          exact fits
      have asked := serve_request reads
        (size_encode (short_op (by simp [Request.new])) (short_pool serves.named)
          (fun v is => by cases is; exact short_volume named)
          (fun s is => by cases is; exact short_label req.shape)
          fun s is => by cases is; exact short_root rooted)
        (check_allocate serves.named named positive small rooted) admits host
      cases made : inner.allocate pool req (.of uid root) host with
      | mk answer after =>
          have performed : (Op.allocate req.name req.shape req.sizeBytes root).perform uid inner
              ⟨pool.name, pool.entry⟩ host = (answer.map .allocation, after) :=
            congrArg (fun made => (made.1.map Outcome.allocation, made.2)) made
          simp only [↓reduceIte, owned, asked.trans performed]
          cases answer <;> rfl

theorem routed_release (reads : RoundTrips fromSlice) (serves : Serves ctx uid inner pool)
    {volume root : String} (named : validVolumeName volume = true)
    (rooted : validRoot root = true) (host : Host)
    : (routedTo fromSlice ctx uid inner debug).release pool volume (.of uid root) host
      = inner.release pool volume (.of uid root) host := by
  simp only [Routed.release, helper_routedTo]
  cases needs : inner.required .release with
  | unprivileged => rfl
  | delegated grant => rfl
  | helper =>
      have owned : Routed.rootOf (.of uid root) = .ok root := by rw [Routed.rootOf, Owner.parts_of]
      have admits : Admits ctx uid ⟨pool.name, .release volume root⟩ pool.entry inner :=
        ⟨serves.listed, serves.allowed, serves.known, by rw [Op.poolOp, needs]; exact nofun, nofun⟩
      have absent {most : Nat} : ∀ v ∈ (none : Option String), Short most v := by
        intro v is
        cases is
      have asked := serve_request reads
        (size_encode (short_op (by simp [Request.new])) (short_pool serves.named)
          (fun v is => by cases is; exact short_volume named) absent
          fun s is => by cases is; exact short_root rooted)
        (check_release serves.named named rooted) admits host
      cases made : inner.release pool volume (.of uid root) host with
      | mk answer after =>
          have performed : (Op.release volume root).perform uid inner ⟨pool.name, pool.entry⟩ host
              = (answer.map fun _ => .released, after) :=
            congrArg (fun made => (made.1.map fun _ => Outcome.released, made.2)) made
          simp only [↓reduceIte, owned, asked.trans performed]
          cases answer <;> rfl

end

/-- A driver is called for an admitted request only, with the caller as the owner, whom `parts`
gives back. For a pool the helper serves, the engine gets from it what the driver itself answers.
-/
theorem helper_boundary {fromSlice : ByteArray → Except String Request}
    (reads : RoundTrips fromSlice) (ctx : ServeContext Host) (uid : UInt32)
    : (∀ bytes host, ∀ call ∈ (serve fromSlice ctx.recorded bytes uid (host, [])).2.2,
        ∃ request req entry driver, Request.decode fromSlice bytes = .ok request
          ∧ request.check = .ok req ∧ Admits ctx uid req entry driver
          ∧ call = req.op.call uid entry.driver ⟨req.pool, entry⟩)
      ∧ (∀ uid root, (Owner.of uid root).parts = some (uid, root))
      ∧ (∀ uid uid' root root', Owner.of uid root = Owner.of uid' root' →
          uid = uid' ∧ root = root')
      ∧ ∀ inner pool debug, Serves ctx uid inner pool →
        (NeverWrites inner → ∀ host,
          (routedTo fromSlice ctx uid inner debug).probe pool host = inner.probe pool host
            ∧ (routedTo fromSlice ctx uid inner debug).usage pool host = inner.usage pool host)
        ∧ (∀ (req : VolumeRequest) root, validVolumeName req.name = true → req.sizeBytes ≠ 0 →
            req.sizeBytes ≤ maxSizeBytes → Fits ctx pool.entry pool.name req.sizeBytes →
            validRoot root = true → ∀ host,
            (routedTo fromSlice ctx uid inner debug).allocate pool req (.of uid root) host
              = inner.allocate pool req (.of uid root) host)
        ∧ ∀ volume root, validVolumeName volume = true → validRoot root = true → ∀ host,
            (routedTo fromSlice ctx uid inner debug).release pool volume (.of uid root) host
              = inner.release pool volume (.of uid root) host := by
  refine ⟨fun bytes host call made => admits_of_call made, Owner.parts_of,
    fun uid uid' root root' => Owner.of_inj, ?_⟩
  intro inner pool debug serves
  refine ⟨?_, ?_, ?_⟩
  · intro still host
    exact ⟨routed_probe debug reads serves still host, routed_usage debug reads serves still host⟩
  · intro req root named positive small fits rooted host
    exact routed_allocate debug reads serves named positive small fits rooted host
  · intro volume root named rooted host
    exact routed_release debug reads serves named rooted host

-----------------------------------------------------------------------------------------
-- A reader of requests
-----------------------------------------------------------------------------------------

theorem lookup_fields (r : Request)
    : r.fields.lookup "v" = some (.number r.v.toNat) ∧ r.fields.lookup "op" = some (.text r.op)
      ∧ r.fields.lookup "pool" = some (.text r.pool)
      ∧ r.fields.lookup "volume" = r.volume.map .text
      ∧ r.fields.lookup "shape" = r.shape.map .text
      ∧ r.fields.lookup "size_bytes" = r.sizeBytes.map (fun n => .number n.toNat)
      ∧ r.fields.lookup "root" = r.root.map .text := by
  obtain ⟨v, op, pool, volume, shape, size, root⟩ := r
  cases volume <;> cases shape <;> cases size <;> cases root <;>
    simp [Request.fields, List.lookup_cons]

/-- The fields hold everything, so no two requests are written alike. -/
theorem Request.encode_injective : Function.Injective Request.encode := by
  intro r r' same
  have texts := String.ofList_injective (String.toByteArray_inj.mp same)
  have fields : r.fields = r'.fields := Value.object.inj (write_injective texts)
  have here := lookup_fields r
  rw [fields] at here
  obtain ⟨v, op, pool, volume, shape, size, root⟩ := lookup_fields r'
  obtain ⟨v', op', pool', volume', shape', size', root'⟩ := here
  have text : Function.Injective Value.text := fun _ _ same => Value.text.inj same
  have number : Function.Injective fun n : UInt64 => Value.number n.toNat := fun _ _ same =>
    UInt64.toNat_inj.mp (Value.number.inj same)
  have v := UInt32.toNat_inj.mp (Value.number.inj (Option.some.inj (v'.symm.trans v)))
  have op := Value.text.inj (Option.some.inj (op'.symm.trans op))
  have pool := Value.text.inj (Option.some.inj (pool'.symm.trans pool))
  have volume := Option.map_injective text (volume'.symm.trans volume)
  have shape := Option.map_injective text (shape'.symm.trans shape)
  have size := Option.map_injective number (size'.symm.trans size)
  have root := Option.map_injective text (root'.symm.trans root)
  cases r
  cases r'
  simp_all

/-- Reads exactly what `encode` writes. -/
noncomputable def readRequest (bytes : ByteArray) : Except String Request :=
  open Classical in
  if written : ∃ r : Request, r.encode = bytes then .ok written.choose
  else .error "expected value at line 1 column 1"

theorem readRequest_encode : RoundTrips readRequest := by
  intro r
  have written : ∃ r' : Request, r'.encode = r.encode := ⟨r, rfl⟩
  rw [readRequest, dif_pos written, Request.encode_injective written.choose_spec]

/-- A thin pool that makes every volume and counts them. -/
def counting : Driver Nat where
  id := "lvm-thin"
  required _ := .helper
  probe _ host := (.available, host)
  allocate pool req _ host :=
    (.ok ⟨pool.name, req.name, req.shape, "/var/lib/delonix-storage/mounts", false⟩, host + 1)
  release _ _ _ host := (.ok (), host - 1)
  usage _ host := ({}, host)

def fast : PoolRef := ⟨"fast", { driver := "lvm-thin", allowUsers := ["walter"] }⟩

def fastOnly : ServeContext Nat where
  pools name := if name = "fast" then some fast.entry else none
  driver id := if id = "lvm-thin" then some counting else none
  uidOf name := if name = "walter" then some 1000 else none
  parseSize _ := none

/-- A user of the pool gets a volume through the helper. -/
theorem helper_boundary_fast
    : (routedTo readRequest fastOnly 1000 counting fun _ => "").allocate fast
        ⟨"db", .filesystem, 1024⟩ (.of 1000 "/home/walter") 0
      = (.ok ⟨"fast", "db", .filesystem, "/var/lib/delonix-storage/mounts", false⟩, 1) := by
  have serves : Serves fastOnly 1000 counting fast :=
    ⟨by decide +kernel, rfl, by decide +kernel, rfl⟩
  have engine := (helper_boundary readRequest_encode fastOnly 1000).2.2.2 counting fast
    (fun _ => "") serves
  rw [engine.2.1 ⟨"db", .filesystem, 1024⟩ "/home/walter" (by decide +kernel) (by decide)
    (by decide) ⟨none, rfl, nofun⟩ (by decide +kernel) 0]
  rfl

end Delonix.Storage
