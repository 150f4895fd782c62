/-
  The names that come from the process that is debugged.

  The windows read three arrays as C strings: `mod0Name` of each module, `mName`, and `name` of each
  row of the process list.  All three are copied without a zero behind them: the terminator of a path
  is written into the local it has been copied from, and 12 bytes of 12 are copied of a name.  What
  terminates them is what has been copied, or what was left as it was declared: a path that does not
  take all of `mod0Name` ends in a zero that has always been there.

  `namesTerminated_iff` has the limits: a path of 512 bytes, and a name of 12, with no zero in them.

  1. The three copies are `fillModule`, `findName` and `readProcess`, each with the array it copies
     into.
  2. `Terminated` is a zero within the array; `terminated_copy_iff` is the one fact about copying
     in front of an array that had a zero.
  3. `namesTerminated_iff` puts the three together, for any memory and any names the kernel may
     report.
-/
import Nxdb.ProcessRows

namespace Nxdb

open Lib

/-! ## The code -/

/-- `mProgramId` and `mName`. -/
structure SessionName where
  mProgramId : Nat
  mName : List UInt8
deriving DecidableEq

/-- Both as they are declared. -/
def SessionName.initial : SessionName := ⟨0, List.replicate 12 0⟩

/-- `DebuggingSession::findName`, by what `svcGetDebugEvent` gives and what `tryContinueImpl` returns;
    `none` when it ends the program. -/
def SessionName.findName (event : Option DebugEvent) (continued : Bool) (s : SessionName) :
    Option SessionName :=
  match event with
  | none => none
  | some d =>
    if continued then some ⟨d.programId, if d.isCreateProcess then d.name else s.mName⟩ else none

/-! ## What should hold, and when it does

  The conditions are about what is copied.  What was there before does not matter: of a name all 12
  bytes are copied, and behind a path there are zeros, as `mModules` is declared. -/

/-- An array of `size` bytes has a zero in it. -/
def Terminated (size : Nat) (array : List UInt8) : Prop := 0 ∈ array.take size

instance (size : Nat) (array : List UInt8) : Decidable (Terminated size array) :=
  inferInstanceAs (Decidable (0 ∈ _))

/-- After `findModules` the name of each module that is listed is terminated. -/
def Mod0NamesTerminated (K : DebugSvc) : Prop :=
  ∀ fuel t, K.findModules fuel ModuleTable.initial = some (.value t) →
    ∀ mod0Name ∈ t.listed Module.mod0Name, Terminated 0x200 mod0Name

/-- After `findName` the name of the session is terminated. -/
def MNameTerminated (d : DebugEvent) : Prop :=
  ∀ continued s, SessionName.initial.findName (some d) continued = some s → Terminated 12 s.mName

/-- After `getProcessList` the names that have been read are terminated. -/
def RowNamesTerminated (f : PmFrame) : Prop :=
  ∀ (out out' : List Process) (numRead : Int), out.length = sMaxPids →
    f.toPmSvc.getProcessList out sMaxPids = .value (numRead, out') →
    ∀ (i pid : Nat) (d : DebugEvent) (p : Process), f.toPmSvc.live[i]? = some pid →
      f.toPmSvc.firstEvent pid = some d → d.isCreateProcess = true → out'[i]? = some p →
        Terminated 12 p.name

/-- The three arrays, by what the process has in its memory, what its first event is, and what those
    of the others are. -/
structure NamesTerminated (K : DebugSvc) (d : DebugEvent) (f : PmFrame) : Prop where
  mod0Name : Mod0NamesTerminated K
  mName : MNameTerminated d
  name : RowNamesTerminated f

/-- If there is a path behind the module, it is shorter than 512 bytes, or has a zero in it. -/
def DebugSvc.PathEnds (K : DebugSvc) (r : PermInfo) : Prop :=
  ∀ m, K.readMemory (wrap (r.addr + r.size)) ModulePath.sizeOf = some m →
    (ModulePath.ofMem m).ok = true →
      (ModulePath.ofMem m).pathLength < 0x200 ∨ Terminated 0x200 (ModulePath.ofMem m).path

/-- If the name comes with the event, it has a zero in it. -/
def DebugEvent.NameEnds (d : DebugEvent) : Prop := d.isCreateProcess = true → Terminated 12 d.name

/-! ## Copies

  A copy to the front of an array leaves its rest, so a zero is in it iff one is in what was copied,
  or there is a rest. -/

/-- A copy to the front of an array of zeros. -/
theorem terminated_copy_iff {size len : Nat} {bytes : List UInt8} (hlen : len ≤ size)
    (hbytes : size ≤ bytes.length) :
    Terminated size (bytes.take len ++ (List.replicate size 0).drop len) ↔
      len < size ∨ Terminated size bytes := by
  unfold Terminated
  rcases Nat.lt_or_eq_of_le hlen with hshort | hall
  · refine iff_of_true ?_ (Or.inl hshort)
    have hsize : (bytes.take len ++ (List.replicate size (0 : UInt8)).drop len).length ≤ size := by
      rw [List.length_append, List.length_take, List.length_drop, List.length_replicate]
      omega
    rw [List.take_of_length_le hsize, List.drop_replicate]
    refine List.mem_append_right _ (List.mem_replicate.mpr ⟨?_, rfl⟩)
    omega
  · subst hall
    rw [List.drop_replicate, Nat.sub_self, List.replicate_zero, List.append_nil, List.take_take,
      Nat.min_self, or_iff_right (Nat.lt_irrefl _)]

/-- An array of zeros. -/
theorem terminated_replicate (size : Nat) (h : 0 < size) :
    Terminated size (List.replicate size 0) := by
  unfold Terminated
  rw [List.take_of_length_le (by rw [List.length_replicate])]
  exact List.mem_replicate.mpr ⟨Nat.ne_of_gt h, rfl⟩

/-! ## The three arrays

  Each array is a copy of this kind, under the conditions its function makes.  `namesTerminated_iff`
  is their conjunction. -/

theorem ModulePath.length_path (m : Mem) : (ModulePath.ofMem m).path.length = 0x200 := by
  unfold ofMem
  dsimp only
  rw [Mem.length_slice]

/-- The lengths of the paths that are copied. -/
theorem ModulePath.pathLength_of_ok {p : ModulePath} (hok : p.ok = true) :
    p.pathLength.toInt.toNat ≤ 0x200 ∧ (p.pathLength.toInt.toNat < 0x200 ↔ p.pathLength < 0x200) := by
  obtain ⟨-, hpos, hle⟩ := of_decide_eq_true hok
  rw [Int32.lt_iff_toInt_lt] at hpos
  rw [Int32.le_iff_toInt_le] at hle
  rw [Int32.lt_iff_toInt_lt]
  have hzero : (0 : Int32).toInt = 0 := rfl
  have hmax : (0x200 : Int32).toInt = 0x200 := rfl
  rw [hzero] at hpos
  rw [hmax] at hle ⊢
  omega

/-- The name of a module. -/
theorem terminated_fillModule_iff (K : DebugSvc) (r : PermInfo) :
    Terminated 0x200 (K.fillModule r Module.initial).mod0Name ↔ K.PathEnds r := by
  have hzeros : Terminated 0x200 Module.initial.mod0Name := terminated_replicate _ (by decide)
  unfold DebugSvc.PathEnds DebugSvc.fillModule DebugSvc.readName
  cases hread : K.readMemory (wrap (r.addr + r.size)) ModulePath.sizeOf with
  | none => exact iff_of_true hzeros fun m h => absurd h (by simp)
  | some m =>
    dsimp only
    by_cases hok : (ModulePath.ofMem m).ok = true
    · obtain ⟨hlen, hlt⟩ := ModulePath.pathLength_of_ok hok
      have hpath := Nat.le_of_eq (ModulePath.length_path m).symm
      rw [if_pos hok]
      refine (terminated_copy_iff hlen hpath).trans ?_
      rw [hlt]
      constructor
      · intro h m' hm' _
        obtain rfl := Option.some.inj hm'
        exact h
      · intro h
        exact h m rfl hok
    · rw [if_neg hok]
      refine iff_of_true hzeros fun m' hm' hok' => ?_
      obtain rfl := Option.some.inj hm'
      exact absurd hok' hok

/-- **The modules.** -/
theorem mod0NamesTerminated_iff {K : DebugSvc} {rs : List PermInfo} {stop : Nat}
    (hlayout : DebugLayout K rs stop) (hroom : (modulesOf rs).length ≤ sMaxModules) :
    Mod0NamesTerminated K ↔ ∀ r ∈ modulesOf rs, K.PathEnds r := by
  rcases foldlM_addModule K (modulesOf rs) ModuleTable.initial with ⟨-, t, ht, -⟩ | ⟨hfull, -⟩
  · have hlisted : t.listed Module.mod0Name =
        (modulesOf rs).map fun r => (K.fillModule r Module.initial).mod0Name := by
      have hfold := (Table.fresh_replicate Module.initial).foldlM_push Module.mod0Name _ ht
      rwa [Table.listed_zero, List.nil_append] at hfold
    have hends : (∀ mod0Name ∈ t.listed Module.mod0Name, Terminated 0x200 mod0Name) ↔
        ∀ r ∈ modulesOf rs, K.PathEnds r := by
      rw [hlisted, List.forall_mem_map]
      exact forall₂_congr fun r _ => terminated_fillModule_iff K r
    have hfind : ∀ fuel, rs.length < fuel →
        K.findModules fuel ModuleTable.initial = some (.value t) := fun fuel hfuel => by
      rw [findModules_eq hlayout hfuel, ht]
      rfl
    constructor
    · intro h
      exact hends.mp (h (rs.length + 1) t (hfind _ (Nat.lt_succ_self _)))
    · intro h fuel t' ht'
      -- with more rounds it is the same table
      have hmore := DebugSvc.findLoop_mono (rs.length + 1) ht'
      have hsame := hmore.symm.trans (hfind (fuel + (rs.length + 1)) (by omega))
      rw [Option.some.injEq, Outcome.value.injEq] at hsame
      rw [hsame]
      exact hends.mpr h
  · exact absurd hroom (Nat.not_le_of_lt hfull)

/-- **The session.** -/
theorem mNameTerminated_iff (d : DebugEvent) : MNameTerminated d ↔ d.NameEnds := by
  obtain ⟨isCreateProcess, programId, name⟩ := d
  unfold MNameTerminated DebugEvent.NameEnds
  cases isCreateProcess with
  | true =>
    rw [imp_iff_right rfl]
    constructor
    · intro h
      exact h true ⟨programId, name⟩ rfl
    · intro h continued s hs
      cases continued with
      | true =>
        obtain rfl := Option.some.inj hs
        exact h
      | false => exact absurd hs (Option.some_ne_none s).symm
  | false =>
    refine iff_of_true ?_ fun h => absurd h (by simp)
    intro continued s hs
    cases continued with
    | true =>
      obtain rfl := Option.some.inj hs
      exact terminated_replicate 12 (by decide)
    | false => exact absurd hs (Option.some_ne_none s).symm

/-- **The rows.** -/
theorem rowNamesTerminated_iff (f : PmFrame) : RowNamesTerminated f ↔
    ∀ pid ∈ f.toPmSvc.live, ∀ d, f.toPmSvc.firstEvent pid = some d → d.NameEnds := by
  have hname : ∀ {pid : Nat} {d : DebugEvent} (p : Process), f.toPmSvc.firstEvent pid = some d →
      d.isCreateProcess = true → (f.toPmSvc.row pid p).name = d.name := by
    intro pid d p hd hcreate
    unfold PmSvc.row
    rw [hd]
    exact if_pos hcreate
  constructor
  · intro h pid hpid d hd hcreate
    obtain ⟨i, hi⟩ := List.mem_iff_getElem?.mp hpid
    have hlen : (List.replicate sMaxPids (⟨0, 0, Process.blankName⟩ : Process)).length = sMaxPids :=
      List.length_replicate
    obtain ⟨out', hlist, -, hrows⟩ := PmSvc.getProcessList_rows f.fits f.answers hlen
    have hroom : i < sMaxPids := by
      obtain ⟨hlt, -⟩ := List.getElem?_eq_some_iff.mp hi
      exact Nat.lt_of_lt_of_le hlt f.fits
    have hrow := hrows i _ (List.getElem?_replicate_of_lt hroom)
    rw [PmSvc.rowAt_of_live hi] at hrow
    have hend := h _ out' _ hlen hlist i pid d _ hi hd hcreate hrow
    rwa [hname _ hd hcreate] at hend
  · intro h out out' numRead hlen hlist i pid d p hi hd hcreate hp
    obtain ⟨out₁, hlist₁, -, hrows⟩ := PmSvc.getProcessList_rows f.fits f.answers hlen
    rw [hlist₁] at hlist
    obtain ⟨-, rfl⟩ := Prod.mk.inj (Outcome.value.inj hlist)
    have hroom : i < out.length := by
      obtain ⟨hlt, -⟩ := List.getElem?_eq_some_iff.mp hi
      rw [hlen]
      exact Nat.lt_of_lt_of_le hlt f.fits
    have hrow := hrows i _ (List.getElem?_eq_getElem hroom)
    rw [PmSvc.rowAt_of_live hi] at hrow
    obtain rfl := Option.some.inj (hrow.symm.trans hp)
    rw [hname _ hd hcreate]
    exact h pid (List.mem_of_getElem? hi) d hd hcreate

/-- **The names.**  Whatever the process has in its memory, and whatever the names of the processes
    are, the three arrays are terminated if and only if no path of a module takes all 512 bytes
    without a zero in them, and each name of 12 bytes that comes with an event has a zero in it. -/
theorem namesTerminated_iff {K : DebugSvc} {rs : List PermInfo} {stop : Nat}
    (hlayout : DebugLayout K rs stop) (hroom : (modulesOf rs).length ≤ sMaxModules) (d : DebugEvent)
    (f : PmFrame) : NamesTerminated K d f ↔ (∀ r ∈ modulesOf rs, K.PathEnds r) ∧ d.NameEnds ∧
      ∀ pid ∈ f.toPmSvc.live, ∀ e, f.toPmSvc.firstEvent pid = some e → e.NameEnds := by
  rw [← mod0NamesTerminated_iff hlayout hroom, ← mNameTerminated_iff, ← rowNamesTerminated_iff]
  exact ⟨fun h => ⟨h.mod0Name, h.mName, h.name⟩, fun ⟨hmod, hname, hrow⟩ => ⟨hmod, hname, hrow⟩⟩

/-! ## Paths and names at their limits -/

/-- A path of `n` letters behind the first module of `codeLayout`. -/
def pathMem (n : Nat) : Mem := fun a =>
  if a = 0x8004004 then UInt8.ofNat n
  else if a = 0x8004005 then UInt8.ofNat (n / 256)
  else if 0x8004008 ≤ a then 65 else 0

/-- The session on the process with that path. -/
def pathSvc (n : Nat) : DebugSvc := debugSvcOf codeLayout 0x8000000000 (pathMem n)

theorem debugLayout_pathSvc (n : Nat) : DebugLayout (pathSvc n) codeLayout 0x8000000000 :=
  debugLayout_debugSvcOf _ _ _ (by decide) (by decide)

theorem modulesOf_codeLayout : modulesOf codeLayout =
    [⟨⟨0x8000000, 0x4000, 3⟩, 5⟩, ⟨⟨0x8009000, 0x5000, 8⟩, 5⟩] := by decide

/-- The first event of a process with 12 letters in its name. -/
def DebugEvent.twelve : DebugEvent := ⟨true, 0x42, List.replicate 12 65⟩

/-- A path of 511 letters, and `qlaunch`. -/
theorem namesTerminated_short : NamesTerminated (pathSvc 0x1FF) DebugEvent.qlaunch Rows.menuRuns := by
  refine (namesTerminated_iff (debugLayout_pathSvc _) (by decide) _ _).mpr ⟨?_, ?_, ?_⟩
  · intro r hr m hm hok
    rw [modulesOf_codeLayout, List.mem_cons, List.mem_singleton] at hr
    rcases hr with rfl | rfl
    · obtain rfl := Option.some.inj hm
      exact Or.inl (by decide)
    · obtain rfl := Option.some.inj hm
      exact absurd hok (by decide)
  · exact fun _ => by decide
  · intro pid _ e he _
    obtain rfl := Option.some.inj he
    decide

/-- A path of 512 letters; a name of 12, of the session; and one in a row. -/
theorem not_namesTerminated_long :
    ¬NamesTerminated (pathSvc 0x200) DebugEvent.qlaunch Rows.menuRuns ∧
      ¬NamesTerminated (pathSvc 0x1FF) DebugEvent.twelve Rows.menuRuns ∧
      ¬NamesTerminated (pathSvc 0x1FF) DebugEvent.qlaunch
        (.lodged 0x85 0x42 (some DebugEvent.twelve) (by decide) (by decide)) := by
  refine ⟨fun h => ?_, fun h => ?_, fun h => ?_⟩
  · have hends := (mod0NamesTerminated_iff (debugLayout_pathSvc _) (by decide)).mp h.mod0Name
      ⟨⟨0x8000000, 0x4000, 3⟩, 5⟩ (by rw [modulesOf_codeLayout]; exact List.mem_cons_self)
    rcases hends _ rfl (by decide) with hshort | hzero
    · exact absurd hshort (by decide)
    · exact absurd hzero (by decide +kernel)
  · exact absurd ((mNameTerminated_iff _).mp h.mName rfl) (by decide)
  · have hends := (rowNamesTerminated_iff _).mp h.name 0x85
      (by rw [PmFrame.lodged, live_lodger _ (by decide) (by decide)]; exact List.mem_cons_self)
    exact absurd (hends _ rfl rfl) (by decide)

end Nxdb
