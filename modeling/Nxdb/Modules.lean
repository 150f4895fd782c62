/-
  `DebuggingSession::findModules`: the code modules of the process.

  The same walk as `mapBlocks`, with exits of its own: it is left at the reserved region, and where
  the addresses wrap around.  The qualifying regions before the first reserved one are taken, one
  after the other, and nothing asks whether `mModules` has room for one more: `findModules_eq` says
  what the loop does as a fold over those regions, room or no room.  With a single reserved region,
  at the end, and room for all, `mModules` is the list of them (`findModules_lists`).

  1. Program: `findLoop` and `visit`, with the name of a module read as `ModulePath`.
  2. `modulesOf` is the list of regions it should find, `Lib.Table` the array it fills.
  3. The crux is `findLoop_eq`: the loop is a fold of `addModule` over `modulesOf`, by induction on
     the regions in front of the reserved one, one round each.
-/
import Nxdb.Walk
import Nxdb.Lib.Bytes
import Nxdb.Lib.Table
import Mathlib.Data.List.TakeWhile

namespace Nxdb

open Lib

/-! ## The code

  The table is `Lib/Table`: writing to an index that it does not have is `none`.  The name that is
  read from behind a module is an arbitrary function of the process's memory. -/

/-- The members of libnx's `MemoryInfo` that are used, the permissions included. -/
structure PermInfo extends MemoryInfo where
  perm : Nat
deriving DecidableEq

/-- `MemType_CodeStatic`. -/
def MemoryInfo.codeStatic : Nat := 0x03

/-- `MemType_ModuleCodeStatic`. -/
def MemoryInfo.moduleCodeStatic : Nat := 0x08

/-- `Perm_Rx`. -/
def PermInfo.rx : Nat := 5

/-- The regions that are modules. -/
def PermInfo.isModule (r : PermInfo) : Bool :=
  decide (r.perm = rx ∧ (r.type = MemoryInfo.codeStatic ∨ r.type = MemoryInfo.moduleCodeStatic))

/-- `memoryInfo.type == MemType_Reserved`. -/
def PermInfo.isReserved (r : PermInfo) : Bool := decide (r.type = MemoryInfo.reserved)

/-- How many modules `mModules` holds. -/
def sMaxModules : Nat := 13

/-- An entry of `mModules`, as far as it is written. -/
structure Module where
  base : Nat
  size : Nat
  mod0Name : List UInt8

/-- A `Module` as it is declared. -/
def Module.initial : Module := ⟨0, 0, List.replicate 0x200 0⟩

/-- The structure that is read from behind a module. -/
structure ModulePath where
  zero : Nat
  pathLength : Int32
  path : List UInt8

namespace ModulePath

/-- `sizeof(modulePath)`. -/
def sizeOf : Nat := 0x208

/-- `ModulePath`, read from the memory of the process. -/
def ofMem (m : Mem) : ModulePath := ⟨leVal (m.slice 0 4), intVal (m.slice 4 4), m.slice 8 0x200⟩

/-- The checks that are made before the path is copied. -/
def ok (p : ModulePath) : Bool := decide (p.zero = 0 ∧ 0 < p.pathLength ∧ p.pathLength ≤ 0x200)

end ModulePath

/-- `mModules`, of which the first `mNumModules` entries are in use. -/
abbrev ModuleTable := Table Module sMaxModules

/-- `mModules` and `mNumModules` as they are declared. -/
def ModuleTable.initial : ModuleTable := ⟨0, Vector.replicate sMaxModules Module.initial⟩

/-- The kernel behind the debug handle: whether `svcQueryDebugProcessMemory` succeeds at an address,
    and what `memoryInfo` is then; and what `svcReadDebugProcessMemory` reads, from an address and
    with a size (`none` when it fails). -/
structure DebugSvc where
  queryMemory : Nat → Bool × PermInfo
  readMemory : Nat → Nat → Option Mem

namespace DebugSvc

/-- The name of a module, read from directly behind it.  (The terminator goes into the local
    `modulePath`, after the copy.) -/
def readName (K : DebugSvc) (info : PermInfo) (mod0Name : List UInt8) : List UInt8 :=
  match K.readMemory (wrap (info.addr + info.size)) ModulePath.sizeOf with
  | none => mod0Name
  | some m =>
    let modulePath := ModulePath.ofMem m
    if modulePath.ok then
      modulePath.path.take modulePath.pathLength.toInt.toNat ++
        mod0Name.drop modulePath.pathLength.toInt.toNat
    else mod0Name

/-- What is put into an entry of `mModules`. -/
def fillModule (K : DebugSvc) (info : PermInfo) (module : Module) : Module :=
  ⟨info.addr, info.size, K.readName info module.mod0Name⟩

/-- `mModules[mNumModules++]` is filled; `none` when there is no such entry. -/
def addModule (K : DebugSvc) (s : ModuleTable) (info : PermInfo) : Option ModuleTable :=
  s.push (K.fillModule info)

/-- What a round does with the answer to the query. -/
def visit (K : DebugSvc) (s : ModuleTable) (succeeded : Bool) (memoryInfo : PermInfo) :
    Option ModuleTable :=
  if succeeded && memoryInfo.isModule then K.addModule s memoryInfo else some s

/-- The loop of `findModules`; `none` when it takes more than `fuel` rounds. -/
def findLoop (K : DebugSvc) : Nat → Nat → ModuleTable → Option (Outcome ModuleTable)
  | 0, _, _ => none
  | fuel + 1, curAddr, s =>
    let memoryInfo := (K.queryMemory curAddr).2
    match K.visit s (K.queryMemory curAddr).1 memoryInfo with
    | none => some .overrun
    | some s =>
      let next := wrap (memoryInfo.addr + memoryInfo.size)
      if memoryInfo.isReserved then some (.value s)
      else if next < curAddr then some (.value s)
      else K.findLoop fuel next s

/-- `DebuggingSession::findModules`. -/
def findModules (K : DebugSvc) (fuel : Nat) (s : ModuleTable) : Option (Outcome ModuleTable) :=
  K.findLoop fuel 0 { s with count := 0 }

end DebugSvc

/-! ## Layouts

  What is asked about ends in a reserved region, and with it the loop; there may be others before,
  which end it as well, so `modulesOf` stops at the first one. -/

/-- The regions without their permissions. -/
def regionsOf (rs : List PermInfo) : List MemoryInfo := rs.map PermInfo.toMemoryInfo

/-- What `svcQueryDebugProcessMemory` is about: regions from `0` up to `stop`, and the reserved one
    behind them up to the end of the 64-bit space. -/
structure DebugLayout (K : DebugSvc) (rs : List PermInfo) (stop : Nat) : Prop where
  contiguous : Contiguous 0 (regionsOf rs) stop
  lt : stop < 2 ^ 64
  query : ∀ r ∈ rs, ∀ a, r.addr ≤ a → a < r.addr + r.size → K.queryMemory a = (true, r)
  beyond : ∀ a, stop ≤ a → a < 2 ^ 64 →
    ∃ info, K.queryMemory a = (true, info) ∧ info.toMemoryInfo = reservedFrom stop

/-- The regions that are taken: the modules below the first reserved region. -/
def modulesOf (rs : List PermInfo) : List PermInfo :=
  (rs.takeWhile fun r => !r.isReserved).filter PermInfo.isModule

theorem isReserved_of_reservedFrom {info : PermInfo} {stop : Nat}
    (h : info.toMemoryInfo = reservedFrom stop) : info.isReserved = true := by
  have htype : info.type = MemoryInfo.reserved := by
    rw [h]
    rfl
  exact decide_eq_true htype

/-- A reserved region is no module. -/
theorem not_isModule_of_isReserved {info : PermInfo} (h : info.isReserved = true) :
    info.isModule = false := by
  rw [PermInfo.isReserved, decide_eq_true_iff] at h
  rw [PermInfo.isModule, h]
  simp [MemoryInfo.reserved, MemoryInfo.codeStatic, MemoryInfo.moduleCodeStatic]

theorem modulesOf_cons_reserved {r : PermInfo} {rs : List PermInfo} (h : r.isReserved = true) :
    modulesOf (r :: rs) = [] := by
  rw [modulesOf, List.takeWhile_cons_of_neg (by simp [h])]
  rfl

theorem modulesOf_cons {r : PermInfo} {rs : List PermInfo} (h : r.isReserved = false) :
    modulesOf (r :: rs) = if r.isModule then r :: modulesOf rs else modulesOf rs := by
  rw [modulesOf, List.takeWhile_cons_of_pos (by simp [h]), List.filter_cons]
  rfl

/-- With no reserved region the modules are all that qualify. -/
theorem modulesOf_eq {rs : List PermInfo} (h : ∀ r ∈ rs, r.isReserved = false) :
    modulesOf rs = rs.filter PermInfo.isModule := by
  rw [modulesOf, List.takeWhile_eq_self_iff.mpr]
  intro r hr
  rw [h r hr]
  rfl

/-! ## The loop as a fold

  A round takes its region or leaves it.  With the regions as a list, the loop is a fold of
  `addModule` over those that are taken (`findLoop_eq`), and more fuel than regions changes
  nothing. -/

namespace DebugSvc

/-- What a round does with a region of the process. -/
theorem visit_true (K : DebugSvc) (s : ModuleTable) (r : PermInfo) :
    K.visit s true r = if r.isModule then K.addModule s r else some s := by
  rw [visit, Bool.true_and]

theorem visit_of_not_isModule (K : DebugSvc) (s : ModuleTable) {ok : Bool} {r : PermInfo}
    (h : r.isModule = false) : K.visit s ok r = some s := by
  rw [visit, h, Bool.and_false]
  rfl

/-- The end of `findModules`, by whether there was room. -/
def tableOutcome : Option ModuleTable → Outcome ModuleTable
  | none => .overrun
  | some s => .value s

/-- One round. -/
theorem findLoop_succ {K : DebugSvc} {fuel a : Nat} {s : ModuleTable} {ok : Bool} {r : PermInfo}
    (hget : K.queryMemory a = (ok, r)) :
    K.findLoop (fuel + 1) a s =
      match K.visit s ok r with
      | none => some .overrun
      | some s =>
        if r.isReserved then some (.value s)
        else if wrap (r.addr + r.size) < a then some (.value s)
        else K.findLoop fuel (wrap (r.addr + r.size)) s := by
  rw [findLoop, hget]

/-- **The loop.**  It takes the modules below the first reserved region, and ends there. -/
theorem findLoop_eq {K : DebugSvc} {stop : Nat} (hstop : stop < 2 ^ 64)
    (hbeyond : ∃ info, K.queryMemory stop = (true, info) ∧ info.toMemoryInfo = reservedFrom stop)
    {rs : List PermInfo} : ∀ {fuel a : Nat} {s : ModuleTable}, Contiguous a (regionsOf rs) stop →
      (∀ r ∈ rs, ∀ x, r.addr ≤ x → x < r.addr + r.size → K.queryMemory x = (true, r)) →
      rs.length < fuel →
      K.findLoop fuel a s = some (tableOutcome ((modulesOf rs).foldlM K.addModule s)) := by
  induction rs with
  | nil =>
    rintro fuel a s rfl _ hfuel
    obtain ⟨fuel, rfl⟩ := Nat.exists_eq_succ_of_ne_zero (Nat.ne_of_gt hfuel)
    obtain ⟨info, hget, hinfo⟩ := hbeyond
    have hreserved := isReserved_of_reservedFrom hinfo
    rw [findLoop_succ hget, visit_of_not_isModule K s (not_isModule_of_isReserved hreserved)]
    simp only [hreserved, if_true]
    rfl
  | cons r rs ih =>
    rintro fuel a s ⟨haddr, hsize, hrest⟩ hquery hfuel
    rw [List.length_cons] at hfuel
    obtain ⟨fuel, rfl⟩ := Nat.exists_eq_succ_of_ne_zero (n := fuel) (by omega)
    have haddr' : r.addr = a := haddr
    have hle : a + r.size ≤ stop := hrest.le
    have hpos : 0 < r.size := hsize
    rw [findLoop_succ (hquery r List.mem_cons_self a (by omega) (by omega))]
    cases hreserved : r.isReserved with
    | true =>
      rw [visit_of_not_isModule K s (not_isModule_of_isReserved hreserved),
        modulesOf_cons_reserved hreserved]
      rfl
    | false =>
      -- the region lies below `stop`, so the addresses do not wrap around
      have hwrap : wrap (r.addr + r.size) = a + r.size := by
        rw [haddr', wrap, Nat.mod_eq_of_lt (by omega)]
      have hgo : ¬a + r.size < a := by omega
      have hih : ∀ s, K.findLoop fuel (a + r.size) s =
          some (tableOutcome ((modulesOf rs).foldlM K.addModule s)) := fun s =>
        ih hrest (fun q hq => hquery q (List.mem_cons_of_mem _ hq)) (by omega)
      rw [visit_true, modulesOf_cons hreserved, hwrap]
      cases hmodule : r.isModule with
      | true =>
        simp only [if_true, List.foldlM_cons]
        cases K.addModule s r with
        | none => rfl
        | some s' => simpa [hgo] using hih s'
      | false => simpa [hgo] using hih s

/-- More rounds change nothing. -/
theorem findLoop_mono {K : DebugSvc} {out : Outcome ModuleTable} (k : Nat) :
    ∀ {fuel a : Nat} {s : ModuleTable}, K.findLoop fuel a s = some out →
      K.findLoop (fuel + k) a s = some out := by
  intro fuel
  induction fuel with
  | zero =>
    intro a s h
    exact absurd h (Option.some_ne_none _).symm
  | succ fuel ih =>
    intro a s h
    rw [Nat.add_right_comm, findLoop]
    rw [findLoop] at h
    dsimp only at h ⊢
    -- both runs take the same branch: the loop ends in both or goes on in both
    cases hvisit : K.visit s (K.queryMemory a).1 (K.queryMemory a).2 with
    | none =>
      rw [hvisit] at h
      exact h
    | some s' =>
      rw [hvisit] at h
      dsimp only at h ⊢
      split at h
      next hreserved =>
        rw [if_pos hreserved]
        exact h
      next hreserved =>
        rw [if_neg hreserved]
        split at h
        next hwrapped =>
          rw [if_pos hwrapped]
          exact h
        next hwrapped =>
          rw [if_neg hwrapped]
          exact ih h

end DebugSvc

/-- What `findModules` does. -/
theorem findModules_eq {K : DebugSvc} {rs : List PermInfo} {stop fuel : Nat}
    (h : DebugLayout K rs stop) (hfuel : rs.length < fuel) (s : ModuleTable) :
    K.findModules fuel s = some (DebugSvc.tableOutcome
      ((modulesOf rs).foldlM K.addModule { s with count := 0 })) :=
  DebugSvc.findLoop_eq h.lt (h.beyond stop (Nat.le_refl _) h.lt) h.contiguous h.query hfuel

/-! ## The table

  The fold comes through iff there is room for all (`foldlM_push`), and then the entries in use are
  the regions in the order in which they were taken, which is that of their addresses. -/

/-- Where a module begins, and its size. -/
def Module.extent (m : Module) : Nat × Nat := (m.base, m.size)

/-- `mModules[0..mNumModules)`, without the names. -/
def ModuleTable.extents (s : ModuleTable) : List (Nat × Nat) := s.listed Module.extent

/-- There is room for the modules or there is not. -/
theorem foldlM_addModule (K : DebugSvc) (mods : List PermInfo) (s : ModuleTable) :
    (mods.length ≤ sMaxModules ∧ ∃ s', mods.foldlM K.addModule { s with count := 0 } = some s' ∧
        s'.count = mods.length ∧ ModuleTable.extents s' = mods.map fun r => (r.addr, r.size)) ∨
      (sMaxModules < mods.length ∧ mods.foldlM K.addModule { s with count := 0 } = none) := by
  have h := Table.foldlM_push (f := K.fillModule) (g := Module.extent)
    (v := fun r => (r.addr, r.size)) (fun _ _ => rfl) mods (t := { s with count := 0 })
    (Nat.zero_le _)
  rw [Table.listed_zero, List.nil_append, Nat.zero_add] at h
  exact h

/-- **Room for the modules.**  `findModules` never writes behind `mModules` if and only if no more
    than 13 regions are taken. -/
theorem findModules_inTable_iff {K : DebugSvc} {rs : List PermInfo} {stop : Nat}
    (h : DebugLayout K rs stop) (s : ModuleTable) :
    (∀ fuel, K.findModules fuel s ≠ some .overrun) ↔ (modulesOf rs).length ≤ sMaxModules := by
  rcases foldlM_addModule K (modulesOf rs) s with ⟨hroom, s', hs', -⟩ | ⟨hfull, hnone⟩
  · refine iff_of_true (fun fuel hover => ?_) hroom
    -- with rounds enough it would still have written behind the table
    have hmore : K.findModules (fuel + (rs.length + 1)) s = some .overrun :=
      DebugSvc.findLoop_mono (rs.length + 1) hover
    rw [findModules_eq h (by omega) s, hs'] at hmore
    exact absurd hmore (by simp [DebugSvc.tableOutcome])
  · refine iff_of_false (fun hno => hno (rs.length + 1) ?_) (Nat.not_le_of_lt hfull)
    rw [findModules_eq h (Nat.lt_succ_self _) s, hnone]
    rfl

/-- In a layout the regions ascend. -/
theorem Contiguous.ascending {rs : List PermInfo} : ∀ {a b : Nat}, Contiguous a (regionsOf rs) b →
    rs.Pairwise fun r q => r.addr + r.size ≤ q.addr := by
  induction rs with
  | nil => exact fun _ => List.Pairwise.nil
  | cons r rs ih =>
    rintro a b ⟨haddr, hsize, hrest⟩
    refine List.pairwise_cons.mpr ⟨fun q hq => ?_, ih hrest⟩
    have haddr' : r.addr = a := haddr
    have hlo : a + r.size ≤ q.addr := (hrest.mem_bounds (List.mem_map_of_mem hq)).1
    omega

/-- **`findModules` lists the modules.**  With a single reserved region, at the end, and no more
    than 13 regions that qualify, it ends, and `mModules[0..mNumModules)` is those regions, each
    once and in ascending order. -/
theorem findModules_lists {K : DebugSvc} {rs : List PermInfo} {stop : Nat}
    (hlayout : DebugLayout K rs stop) (hreserved : ∀ r ∈ rs, r.isReserved = false)
    (hmax : (rs.filter PermInfo.isModule).length ≤ sMaxModules) (s : ModuleTable) :
    ∃ s', (∀ fuel, rs.length < fuel → K.findModules fuel s = some (.value s')) ∧
      s'.count = (rs.filter PermInfo.isModule).length ∧
      ModuleTable.extents s' = (rs.filter PermInfo.isModule).map (fun r => (r.addr, r.size)) ∧
      (ModuleTable.extents s').Pairwise fun x y => x.1 + x.2 ≤ y.1 := by
  rw [← modulesOf_eq hreserved] at hmax ⊢
  rcases foldlM_addModule K (modulesOf rs) s with ⟨-, s', hs', hcount, hlisted⟩ | ⟨hfull, -⟩
  · refine ⟨s', fun fuel hfuel => ?_, hcount, hlisted, ?_⟩
    · rw [findModules_eq hlayout hfuel s, hs']
      rfl
    · rw [hlisted, modulesOf_eq hreserved]
      refine List.pairwise_map.mpr ?_
      exact hlayout.contiguous.ascending.sublist List.filter_sublist
  · exact absurd hmax (Nat.not_le_of_lt hfull)

/-! ## A process -/

/-- The region of a layout that contains an address, its permissions included. -/
def permAt (rs : List PermInfo) (a : Nat) : Option PermInfo :=
  rs.find? fun r => decide (r.addr ≤ a ∧ a < r.addr + r.size)

theorem permAt_eq {rs : List PermInfo} {x : Nat} {r : PermInfo} : ∀ {a b : Nat},
    Contiguous a (regionsOf rs) b → r ∈ rs → r.addr ≤ x → x < r.addr + r.size →
      permAt rs x = some r := by
  induction rs with
  | nil =>
    intro a b _ hr
    exact absurd hr List.not_mem_nil
  | cons q rs ih =>
    rintro a b ⟨haddr, hsize, hrest⟩ hr hlo hhi
    rcases List.mem_cons.mp hr with rfl | hr
    · exact List.find?_cons_of_pos (by simpa using ⟨hlo, hhi⟩)
    · have haddr' : q.addr = a := haddr
      have hfrom : a + q.size ≤ r.addr := (hrest.mem_bounds (List.mem_map_of_mem hr)).1
      rw [permAt, List.find?_cons_of_neg (by simp; omega)]
      exact ih hrest hr hlo hhi

/-- The kernel behind the debug handle of a process with the regions `rs` up to `stop` and the
    memory `mem`. -/
def debugSvcOf (rs : List PermInfo) (stop : Nat) (mem : Mem) : DebugSvc where
  queryMemory a := (true, if a < stop then (permAt rs a).getD ⟨reservedFrom a, 0⟩
    else ⟨reservedFrom stop, 0⟩)
  readMemory a n := if a + n ≤ stop then some fun i => mem (a + i) else none

theorem debugLayout_debugSvcOf (rs : List PermInfo) (stop : Nat) (mem : Mem)
    (h : Contiguous 0 (regionsOf rs) stop) (hlt : stop < 2 ^ 64) :
    DebugLayout (debugSvcOf rs stop mem) rs stop where
  contiguous := h
  lt := hlt
  query r hr a hlo hhi := by
    have hend : r.addr + r.size ≤ stop := (h.mem_bounds (List.mem_map_of_mem hr)).2.2
    simp only [debugSvcOf]
    rw [if_pos (by omega), permAt_eq h hr hlo hhi, Option.getD_some]
  beyond a hlo _ := by
    simp only [debugSvcOf]
    rw [if_neg (Nat.not_lt_of_le hlo)]
    exact ⟨_, rfl, rfl⟩

/-- A program, a library behind it, and their data. -/
def codeLayout : List PermInfo :=
  [⟨⟨0, 0x8000000, 0⟩, 0⟩, ⟨⟨0x8000000, 0x4000, 3⟩, 5⟩, ⟨⟨0x8004000, 0x2000, 3⟩, 1⟩,
    ⟨⟨0x8006000, 0x3000, 4⟩, 3⟩, ⟨⟨0x8009000, 0x5000, 8⟩, 5⟩, ⟨⟨0x800E000, 0x7FF7FF2000, 0⟩, 0⟩]

/-- Both are listed. -/
theorem findModules_codeLayout :
    ∃ s', (∀ fuel, codeLayout.length < fuel →
        (debugSvcOf codeLayout 0x8000000000 fun _ => 0).findModules fuel ModuleTable.initial =
          some (.value s')) ∧
      s'.count = 2 ∧
      ModuleTable.extents s' = [(0x8000000, 0x4000), (0x8009000, 0x5000)] := by
  obtain ⟨s', hfuel, hcount, hlisted, -⟩ := findModules_lists
    (debugLayout_debugSvcOf codeLayout 0x8000000000 (fun _ => 0) (by decide)
      (by decide)) (by decide) (by decide) ModuleTable.initial
  exact ⟨s', hfuel, hcount, hlisted⟩

end Nxdb
