import Hausboot.FatFs.Read
import Hausboot.Lib.Query

/-! # The stage2 FAT Driver: Requests

    All that the driver learns from the disk are whole clusters and FAT
    entries. Here its methods are programs that ask for them (and for the
    name buffer that `FindInDirectory` leaves uninitialised); the windows are
    a server that answers. `exec_eq` says that the methods of the code are
    these programs, run against the windows. -/

open ByteLib QueryLib

namespace Hausboot

namespace FatFs

/-! ## Section 1: Requests and their server -/

inductive Request where
  | cluster (c : Nat)
  | entry (c : Nat)
  | nameBuffer

/-- A failed request for disk data is answered by `none`. -/
abbrev Request.Answer : Request → Type
  | cluster _ => Option Bytes
  | entry _ => Option Nat
  | nameBuffer => Bytes

abbrev Plan (α : Type) : Type := Query Request Request.Answer α

/-- The data window as an answer. -/
def serveCluster (w : World) (v : Volume) (fs : FatFs) (c : Nat) : Option Bytes × FatFs :=
  match loadDataCluster w v fs c with
  | (true, fs) => (some fs.dataWindow, fs)
  | (false, fs) => (none, fs)

/-- The windows answer a request. -/
def serve (w : World) (v : Volume) (fs : FatFs) : (i : Request) → i.Answer × FatFs
  | .cluster c => serveCluster w v fs c
  | .entry c => readFatIndex w v fs c
  | .nameBuffer => (w.uninit .nameBuffer fs.loads, fs)

/-! ## Section 2: The methods as programs -/

section Plans

variable (v : Volume)

/-- `readCluster` -/
def takePlan (cluster offset size : Nat) (out : Bytes) : Plan (Bool × Nat × Nat × Bytes) :=
  if offset < v.bytesPerCluster then
    .ask (.cluster cluster) fun
      | none => .done (false, offset, size, out)
      | some window =>
        let diff := min (v.bytesPerCluster - offset) size
        .done (true, 0, size - diff, out ++ slice window offset diff)
  else .done (true, offset - v.bytesPerCluster, size, out)

/-- `readLoop` -/
def readPlan : Nat → Nat → Nat → Nat → Bytes → Plan (Option (Int × Bytes))
  | 0, _, _, _, _ => .done none
  | fuel + 1, cluster, offset, size, out =>
    if size = 0 || cluster ≥ endOfChain then .done (some (i32 out.length, out))
    else
      (takePlan v cluster offset size out).bind fun
        | (false, _, _, out) => .done (some (-1, out))
        | (true, offset, size, out) =>
          if size > 0 then
            .ask (.entry cluster) fun
              | none => .done (some (-1, out))
              | some next => readPlan fuel next offset size out
          else readPlan fuel cluster offset size out

/-- `readAt` -/
def readAtPlan (fuel : Nat) (finfo : FatFile) (offset size : Nat) : Plan (Option (Int × Bytes)) :=
  if finfo.size > 0 then
    if offset ≥ finfo.size then .done (some (0, []))
    else readPlan v fuel finfo.cluster offset (min size (finfo.size - offset)) []
  else readPlan v fuel finfo.cluster offset size []

/-- The records in a window. -/
def recordsIn (window : Bytes) : List FatDirent :=
  (List.range (v.bytesPerCluster / FatDirent.sizeof)).map fun i =>
    ⟨slice window (i * FatDirent.sizeof) FatDirent.sizeof⟩

/-- `findLoop` -/
def findPlan (name : Bytes) : Nat → Nat → Bytes → Plan (Option FindResult)
  | 0, _, _ => .done none
  | fuel + 1, index, buffer =>
    if index ≥ endOfChain then .done (some .noEntry)
    else
      .ask (.cluster index) fun
        | none => .done (some .ioError)
        | some window => .ask (.entry index) fun
          | none => .done (some .ioError)
          | some next =>
            match findEntry name buffer (recordsIn v window) with
            | .found e =>
              .done (some (.ok { cluster := e.clusterIndex, size := e.size, flags := e.entryFlags }))
            | .last => .done (some .noEntry)
            | .more buffer => findPlan name fuel next buffer

/-- `findInDirectory` -/
def lookupPlan (fuel : Nat) (dir : FatFile) (name : Bytes) : Plan (Option FindResult) :=
  if !isShortName name then .done (some .nameInvalid)
  else if !FlagField.isSet dir.flags FatDirent.directory then .done (some .notDir)
  else .ask .nameBuffer fun buffer => findPlan v name fuel dir.cluster buffer

/-- `pathLoop` -/
def pathPlan (fuel : Nat) : Nat → Bytes → FatFile → Plan (Option FindResult)
  | 0, _, _ => .done none
  | _ + 1, [], out => .done (some (.ok out))
  | n + 1, c :: cs, out =>
    if isSlash c then pathPlan fuel n ((c :: cs).dropWhile isSlash) out
    else
      let name8_3 := (c :: cs).takeWhile (!isSlash ·)
      if name8_3.length > 8 + 1 + 3 then .done (some .nameInvalid)
      else
        (lookupPlan v fuel out name8_3).bind fun
          | some (.ok out) => pathPlan fuel n ((c :: cs).dropWhile (!isSlash ·)) out
          | r => .done r

/-- `findByPath` -/
def findByPathPlan (fuel : Nat) (name : Bytes) : Plan (Option FindResult) :=
  pathPlan v fuel fuel (cstr name) (rootDir v)

end Plans

/-- A call of one of the methods. -/
inductive Call where
  | readAt (finfo : FatFile) (offset size : Nat)
  | findInDirectory (dir : FatFile) (name : Bytes)
  | findByPath (name : Bytes)

/-- What a call gives its caller: `ReadAt` a number and bytes, the others a
    `FindResult`. -/
inductive Reply where
  | read (ret : Int) (data : Bytes)
  | find (r : FindResult)
deriving DecidableEq

/-- The reply tells the caller that the disk could not be read. -/
def Reply.IsError : Reply → Prop
  | read ret _ => ret = -1
  | find r => r = .ioError

def Call.exec (w : World) (v : Volume) (fuel : Nat) (fs : FatFs) : Call → Option (Reply × FatFs)
  | readAt finfo offset size =>
    (FatFs.readAt w v fuel fs finfo offset size).map fun r => (.read r.1 r.2.1, r.2.2)
  | findInDirectory dir name =>
    (FatFs.findInDirectory w v fuel fs dir name).map fun r => (.find r.1, r.2)
  | findByPath name => (FatFs.findByPath w v fuel fs name).map fun r => (.find r.1, r.2)

def Call.plan (v : Volume) (fuel : Nat) : Call → Plan (Option Reply)
  | readAt finfo offset size =>
    (readAtPlan v fuel finfo offset size).bind fun r => .done (r.map fun r => .read r.1 r.2)
  | findInDirectory dir name =>
    (lookupPlan v fuel dir name).bind fun r => .done (r.map .find)
  | findByPath name => (findByPathPlan v fuel name).bind fun r => .done (r.map .find)

/-! ## Section 3: The code runs the programs -/

variable {w : World} {v : Volume}

/-- A result that comes with a state. -/
def withState {α : Type} (r : Option α × FatFs) : Option (α × FatFs) := r.1.map (·, r.2)

theorem dataWindow_readFatIndex (fs : FatFs) (c : Nat) :
    (readFatIndex w v fs c).2.dataWindow = fs.dataWindow := by
  have hload : ∀ s, (loadFatSector w v fs s).2.dataWindow = fs.dataWindow := by
    intro s
    unfold loadFatSector
    split
    · rfl
    · split
      · rfl
      · dsimp only
        split <;> rfl
  have h := hload (u32 (c * 4) / v.sectorSize)
  unfold readFatIndex
  dsimp only
  split
  · next heq => rwa [heq] at h
  · next heq => rwa [heq] at h

theorem run_cluster {α : Type} (fs : FatFs) (c : Nat) (k : Option Bytes → Plan α) :
    Query.run (serve w v) fs (.ask (.cluster c) k) =
      match loadDataCluster w v fs c with
      | (true, fs') => Query.run (serve w v) fs' (k (some fs'.dataWindow))
      | (false, fs') => Query.run (serve w v) fs' (k none) := by
  show Query.run (serve w v) (serveCluster w v fs c).2 (k (serveCluster w v fs c).1) = _
  unfold serveCluster
  rcases loadDataCluster w v fs c with ⟨ok, fs'⟩
  cases ok <;> rfl

theorem run_entry {α : Type} (fs : FatFs) (c : Nat) (k : Option Nat → Plan α) :
    Query.run (serve w v) fs (.ask (.entry c) k) =
      Query.run (serve w v) (readFatIndex w v fs c).2 (k (readFatIndex w v fs c).1) := rfl

theorem readCluster_eq (fs : FatFs) (cluster offset size : Nat) (out : Bytes) :
    readCluster w v fs cluster offset size out =
      (((takePlan v cluster offset size out).run (serve w v) fs).1.1,
        ((takePlan v cluster offset size out).run (serve w v) fs).1.2.1,
        ((takePlan v cluster offset size out).run (serve w v) fs).1.2.2.1,
        ((takePlan v cluster offset size out).run (serve w v) fs).1.2.2.2,
        ((takePlan v cluster offset size out).run (serve w v) fs).2) := by
  unfold readCluster takePlan
  by_cases hoff : offset < v.bytesPerCluster
  · simp only [if_pos hoff, run_cluster]
    rcases loadDataCluster w v fs cluster with ⟨ok, fs'⟩
    cases ok <;> rfl
  · simp only [if_neg hoff]
    rfl

theorem readLoop_eq (fuel : Nat) (fs : FatFs) (cluster offset size : Nat) (out : Bytes) :
    readLoop w v fuel fs cluster offset size out =
      (withState ((readPlan v fuel cluster offset size out).run (serve w v) fs)).map
        fun r => (r.1.1, r.1.2, r.2) := by
  induction fuel generalizing fs cluster offset size out with
  | zero => rfl
  | succ fuel ih =>
    unfold readLoop readPlan
    by_cases hdone : (size = 0 || cluster ≥ endOfChain) = true
    · simp only [if_pos hdone, withState, Query.run, Option.map_some]
    · simp only [if_neg hdone]
      rw [Query.run_bind, readCluster_eq]
      rcases (takePlan v cluster offset size out).run (serve w v) fs
        with ⟨⟨ok, offset', size', out'⟩, fs'⟩
      cases ok with
      | false => rfl
      | true =>
        dsimp only
        by_cases hleft : size' > 0
        · simp only [if_pos hleft, run_entry]
          rcases readFatIndex w v fs' cluster with ⟨r, fs''⟩
          cases r with
          | none => rfl
          | some next => exact ih fs'' next offset' size' out'
        · simp only [if_neg hleft]
          exact ih fs' cluster offset' size' out'

theorem findLoop_eq (name : Bytes) (fuel : Nat) (fs : FatFs) (index : Nat) (buffer : Bytes) :
    findLoop w v name fuel fs index buffer =
      withState ((findPlan v name fuel index buffer).run (serve w v) fs) := by
  induction fuel generalizing fs index buffer with
  | zero => rfl
  | succ fuel ih =>
    unfold findLoop findPlan
    by_cases hend : index ≥ endOfChain
    · simp only [if_pos hend]
      rfl
    · simp only [if_neg hend, run_cluster]
      rcases loadDataCluster w v fs index with ⟨ok, fs₁⟩
      cases ok with
      | false => rfl
      | true =>
        -- reading the entry does not touch the window that is searched
        have hwin := dataWindow_readFatIndex (w := w) (v := v) fs₁ index
        simp only [run_entry]
        generalize readFatIndex w v fs₁ index = answer at hwin ⊢
        rcases answer with ⟨r, fs₂⟩
        cases r with
        | none => rfl
        | some next =>
          dsimp only at hwin ⊢
          rw [show windowEntries v fs₂ = recordsIn v fs₁.dataWindow by rw [← hwin]; rfl]
          cases findEntry name buffer (recordsIn v fs₁.dataWindow) with
          | found e => rfl
          | last => rfl
          | more buffer' => exact ih fs₂ next buffer'

theorem findInDirectory_eq (fuel : Nat) (fs : FatFs) (dir : FatFile) (name : Bytes) :
    findInDirectory w v fuel fs dir name =
      withState ((lookupPlan v fuel dir name).run (serve w v) fs) := by
  unfold findInDirectory lookupPlan
  by_cases hname : (!isShortName name) = true
  · simp only [if_pos hname]
    rfl
  · simp only [if_neg hname]
    by_cases hdir : (!FlagField.isSet dir.flags FatDirent.directory) = true
    · simp only [if_pos hdir]
      rfl
    · simp only [if_neg hdir]
      exact findLoop_eq name fuel fs dir.cluster _

theorem pathLoop_eq (fuel n : Nat) (fs : FatFs) (path : Bytes) (out : FatFile) :
    pathLoop w v fuel n fs path out =
      withState ((pathPlan v fuel n path out).run (serve w v) fs) := by
  induction n generalizing fs path out with
  | zero => rfl
  | succ n ih =>
    cases path with
    | nil => rfl
    | cons c cs =>
      unfold pathLoop pathPlan
      by_cases hslash : isSlash c = true
      · simp only [if_pos hslash]
        exact ih fs _ out
      · simp only [if_neg hslash]
        by_cases hlen : ((c :: cs).takeWhile (!isSlash ·)).length > 8 + 1 + 3
        · simp only [if_pos hlen]
          rfl
        · simp only [if_neg hlen]
          rw [Query.run_bind, findInDirectory_eq]
          rcases (lookupPlan v fuel out ((c :: cs).takeWhile (!isSlash ·))).run (serve w v) fs
            with ⟨r, fs'⟩
          cases r with
          | none => rfl
          | some r =>
            cases r with
            -- only a hit goes on with the rest of the path
            | ok out' => exact ih fs' _ out'
            | nameInvalid => rfl
            | ioError => rfl
            | noEntry => rfl
            | notDir => rfl

theorem readAt_eq (fuel : Nat) (fs : FatFs) (finfo : FatFile) (offset size : Nat) :
    readAt w v fuel fs finfo offset size =
      (withState ((readAtPlan v fuel finfo offset size).run (serve w v) fs)).map
        fun r => (r.1.1, r.1.2, r.2) := by
  unfold readAt readAtPlan
  by_cases hpos : finfo.size > 0
  · simp only [if_pos hpos]
    by_cases hend : offset ≥ finfo.size
    · simp only [if_pos hend, withState, Query.run, Option.map_some]
    · simp only [if_neg hend]
      exact readLoop_eq fuel fs _ _ _ _
  · simp only [if_neg hpos]
    exact readLoop_eq fuel fs _ _ _ _

/-- **The methods are their programs**, run against the windows. -/
theorem exec_eq (fuel : Nat) (fs : FatFs) (c : Call) :
    c.exec w v fuel fs = withState ((c.plan v fuel).run (serve w v) fs) := by
  cases c with
  | readAt finfo offset size =>
    simp only [Call.exec, Call.plan, Query.run_bind, Query.run, readAt_eq, withState,
      Option.map_map]
    rfl
  | findInDirectory dir name =>
    simp only [Call.exec, Call.plan, Query.run_bind, Query.run, findInDirectory_eq, withState,
      Option.map_map]
    rfl
  | findByPath name =>
    simp only [Call.exec, Call.plan, findByPathPlan, Query.run_bind, Query.run, findByPath,
      pathLoop_eq, withState, Option.map_map]
    rfl

/-! ## Section 4: What the programs ask for -/

/-- The request is for a cluster number below the end marks. -/
def Request.Inner : Request → Prop
  | cluster c => c < endOfChain
  | entry c => c < endOfChain
  | nameBuffer => True

/-- The answer says that the disk could not be read. -/
def Request.Fails : (i : Request) → i.Answer → Prop
  | cluster _, r => r = none
  | entry _, r => r = none
  | nameBuffer, _ => False

theorem takePlan_asks {cluster : Nat} (h : cluster < endOfChain) (offset size : Nat) (out : Bytes) :
    (takePlan v cluster offset size out).Asks Request.Inner := by
  unfold takePlan
  split
  · refine ⟨h, ?_⟩
    intro r
    cases r <;> trivial
  · trivial

theorem takePlan_strict (cluster offset size : Nat) (out : Bytes) :
    (takePlan v cluster offset size out).Strict Request.Fails (·.1 = false) := by
  unfold takePlan
  split
  · constructor
    · rintro _ rfl
      exact ⟨_, rfl, rfl⟩
    · intro r
      cases r <;> trivial
  · trivial

theorem readPlan_asks (fuel cluster offset size : Nat) (out : Bytes) :
    (readPlan v fuel cluster offset size out).Asks Request.Inner := by
  induction fuel generalizing cluster offset size out with
  | zero => trivial
  | succ fuel ih =>
    unfold readPlan
    split
    · trivial
    · next hdone =>
      have hin : cluster < endOfChain := by
        simp only [Bool.or_eq_true, decide_eq_true_eq] at hdone
        omega
      apply Query.Asks.bind (takePlan_asks hin offset size out)
      rintro ⟨ok, offset', size', out'⟩
      cases ok with
      | false => trivial
      | true =>
        dsimp only
        split
        · refine ⟨hin, ?_⟩
          intro r
          cases r with
          | none => trivial
          | some next => exact ih next offset' size' out'
        · exact ih cluster offset' size' out'

theorem readPlan_strict (fuel cluster offset size : Nat) (out : Bytes) :
    (readPlan v fuel cluster offset size out).Strict Request.Fails
      (fun r => ∃ data, r = some (-1, data)) := by
  induction fuel generalizing cluster offset size out with
  | zero => trivial
  | succ fuel ih =>
    unfold readPlan
    split
    · trivial
    · apply Query.Strict.bind (takePlan_strict cluster offset size out)
      · rintro ⟨ok, offset', size', out'⟩ hok
        obtain rfl : ok = false := hok
        exact ⟨_, rfl, out', rfl⟩
      · rintro ⟨ok, offset', size', out'⟩
        cases ok with
        | false => trivial
        | true =>
          dsimp only
          split
          · constructor
            · rintro _ rfl
              exact ⟨_, rfl, out', rfl⟩
            · intro r
              cases r with
              | none => trivial
              | some next => exact ih next offset' size' out'
          · exact ih cluster offset' size' out'

theorem findPlan_asks (name : Bytes) (fuel index : Nat) (buffer : Bytes) :
    (findPlan v name fuel index buffer).Asks Request.Inner := by
  induction fuel generalizing index buffer with
  | zero => trivial
  | succ fuel ih =>
    unfold findPlan
    split
    · trivial
    · next hend =>
      have hin : index < endOfChain := Nat.lt_of_not_le hend
      refine ⟨hin, ?_⟩
      intro window
      cases window with
      | none => trivial
      | some window =>
        refine ⟨hin, ?_⟩
        intro next
        cases next with
        | none => trivial
        | some next =>
          dsimp only
          cases findEntry name buffer (recordsIn v window) with
          | found e => trivial
          | last => trivial
          | more buffer' => exact ih next buffer'

theorem findPlan_strict (name : Bytes) (fuel index : Nat) (buffer : Bytes) :
    (findPlan v name fuel index buffer).Strict Request.Fails (· = some .ioError) := by
  induction fuel generalizing index buffer with
  | zero => trivial
  | succ fuel ih =>
    unfold findPlan
    split
    · trivial
    · constructor
      · rintro _ rfl
        exact ⟨_, rfl, rfl⟩
      · intro window
        cases window with
        | none => trivial
        | some window =>
          constructor
          · rintro _ rfl
            exact ⟨_, rfl, rfl⟩
          · intro next
            cases next with
            | none => trivial
            | some next =>
              dsimp only
              cases findEntry name buffer (recordsIn v window) with
              | found e => trivial
              | last => trivial
              | more buffer' => exact ih next buffer'

theorem lookupPlan_asks (fuel : Nat) (dir : FatFile) (name : Bytes) :
    (lookupPlan v fuel dir name).Asks Request.Inner := by
  unfold lookupPlan
  split
  · trivial
  · split
    · trivial
    · exact ⟨trivial, fun buffer => findPlan_asks name fuel dir.cluster buffer⟩

theorem lookupPlan_strict (fuel : Nat) (dir : FatFile) (name : Bytes) :
    (lookupPlan v fuel dir name).Strict Request.Fails (· = some .ioError) := by
  unfold lookupPlan
  split
  · trivial
  · split
    · trivial
    · exact ⟨fun _ h => h.elim, fun buffer => findPlan_strict name fuel dir.cluster buffer⟩

theorem pathPlan_asks (fuel n : Nat) (path : Bytes) (out : FatFile) :
    (pathPlan v fuel n path out).Asks Request.Inner := by
  induction n generalizing path out with
  | zero => trivial
  | succ n ih =>
    cases path with
    | nil => trivial
    | cons c cs =>
      unfold pathPlan
      split
      · exact ih _ out
      · dsimp only
        split
        · trivial
        · apply Query.Asks.bind (lookupPlan_asks fuel out _)
          intro r
          split
          · exact ih _ _
          · trivial

theorem pathPlan_strict (fuel n : Nat) (path : Bytes) (out : FatFile) :
    (pathPlan v fuel n path out).Strict Request.Fails (· = some .ioError) := by
  induction n generalizing path out with
  | zero => trivial
  | succ n ih =>
    cases path with
    | nil => trivial
    | cons c cs =>
      unfold pathPlan
      split
      · exact ih _ out
      · dsimp only
        split
        · trivial
        · apply Query.Strict.bind (lookupPlan_strict fuel out _)
          · rintro _ rfl
            exact ⟨_, rfl, rfl⟩
          · intro r
            split
            · exact ih _ _
            · trivial

theorem readAtPlan_asks (fuel : Nat) (finfo : FatFile) (offset size : Nat) :
    (readAtPlan v fuel finfo offset size).Asks Request.Inner := by
  unfold readAtPlan
  split
  · split
    · trivial
    · exact readPlan_asks _ _ _ _ _
  · exact readPlan_asks _ _ _ _ _

theorem readAtPlan_strict (fuel : Nat) (finfo : FatFile) (offset size : Nat) :
    (readAtPlan v fuel finfo offset size).Strict Request.Fails
      (fun r => ∃ data, r = some (-1, data)) := by
  unfold readAtPlan
  split
  · split
    · trivial
    · exact readPlan_strict _ _ _ _ _
  · exact readPlan_strict _ _ _ _ _

/-- No call asks for a cluster behind the end marks. -/
theorem Call.plan_asks (fuel : Nat) (c : Call) : (c.plan v fuel).Asks Request.Inner := by
  cases c with
  | readAt finfo offset size =>
    exact (readAtPlan_asks fuel finfo offset size).bind fun _ => trivial
  | findInDirectory dir name => exact (lookupPlan_asks fuel dir name).bind fun _ => trivial
  | findByPath name => exact (pathPlan_asks fuel fuel _ _).bind fun _ => trivial

/-- A call whose request fails ends there, with an error. -/
theorem Call.plan_strict (fuel : Nat) (c : Call) :
    (c.plan v fuel).Strict Request.Fails (fun r => ∃ e, r = some e ∧ e.IsError) := by
  cases c with
  | readAt finfo offset size =>
    apply Query.Strict.bind (readAtPlan_strict fuel finfo offset size)
    · rintro _ ⟨data, rfl⟩
      exact ⟨_, rfl, _, rfl, rfl⟩
    · exact fun _ => trivial
  | findInDirectory dir name =>
    apply Query.Strict.bind (lookupPlan_strict fuel dir name)
    · rintro _ rfl
      exact ⟨_, rfl, _, rfl, rfl⟩
    · exact fun _ => trivial
  | findByPath name =>
    apply Query.Strict.bind (pathPlan_strict fuel fuel _ _)
    · rintro _ rfl
      exact ⟨_, rfl, _, rfl, rfl⟩
    · exact fun _ => trivial

end FatFs

end Hausboot
