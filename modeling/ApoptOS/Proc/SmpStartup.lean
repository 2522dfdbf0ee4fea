import ApoptOS.Proc.Smp
import Mathlib.Data.Fintype.Card
import Mathlib.Data.Fintype.Fin

namespace ApoptOS

open Framework

variable {t : SmpTag} {c d : Fin t.cpuCount} {x x' x'' : SmpMemory} {y y' : SmpRegs}

theorem SmpTag.tssAddr_lt (t : SmpTag) (i : Nat) : t.tssAddr i < 2 ^ 64 :=
  Nat.mod_lt _ (by norm_num)

/-- The segment lies inside `cpu_locals`, so its address does not wrap. -/
theorem SmpTag.tssAddr_eq (t : SmpTag) (c : Fin t.cpuCount) :
    t.tssAddr c = t.cpuLocals + 120 * c + 16 := by
  have hfit := t.locals_fit
  have hc := c.isLt
  exact Nat.mod_eq_of_lt (by omega)

theorem SmpTag.eq_bsp (t : SmpTag) {i : Nat} (hi : i < t.cpuCount)
    (h : t.lapicId i = t.bspLapicId) : i = t.bsp :=
  t.distinct i t.bsp hi t.bsp.isLt (h.trans t.bsp_id.symm)

/-- The entry of an AP is ready to be read by it. -/
def Ready (t : SmpTag) (i : Nat) (x : SmpMemory) : Prop :=
  (x.smpInfo i).extraArgument = i ∧ (x.smpInfo i).targetStack = t.stackTop i

/-- What the moves of other CPUs leave as it is, seen from CPU `c`: its own data, the
entries if it is the boot CPU, and else its own entry once that is handed over. -/
structure Rely (t : SmpTag) (c : Fin t.cpuCount) (x x' : SmpMemory) : Prop where
  locals : x'.cpuLocals c = x.cpuLocals c
  boot : c = t.bsp → x'.smpInfo = x.smpInfo
  entry : (x.smpInfo c).gotoAddress ≠ 0 → x'.smpInfo c = x.smpInfo c
  ready : (x'.smpInfo c).gotoAddress ≠ 0 → (x.smpInfo c).gotoAddress ≠ 0 ∨ Ready t c x'

theorem Rely.refl (t : SmpTag) (c : Fin t.cpuCount) (x : SmpMemory) : Rely t c x x :=
  ⟨rfl, fun _ => rfl, fun _ => rfl, fun h => .inl h⟩

theorem Rely.trans (h : Rely t c x x') (h' : Rely t c x' x'') : Rely t c x x'' := by
  refine ⟨h'.locals.trans h.locals, fun hc => (h'.boot hc).trans (h.boot hc), fun hg => ?_,
    fun hg => ?_⟩
  · have he := h.entry hg
    exact (h'.entry (by rwa [he])).trans he
  · rcases h'.ready hg with hg' | hr
    · rcases h.ready hg' with hg | hr
      · exact .inl hg
      · refine .inr ?_
        unfold Ready at hr ⊢
        rwa [h'.entry hg']
    · exact .inr hr

/-- The data of CPU `c` once it is initialised. -/
structure Initialised (t : SmpTag) (c : Fin t.cpuCount) (x : SmpMemory) (y : SmpRegs) : Prop where
  data : x.cpuLocals c = ⟨c, t.lapicId c, t.stackTop c⟩
  segment : y.taskRegister = some (t.tssAddr c)
  entry : Ready t c x
  handed : c = t.bsp ∨ (x.smpInfo c).gotoAddress ≠ 0

theorem Initialised.rely (h : Initialised t c x y) (hr : Rely t c x x') : Initialised t c x' y := by
  have he : x'.smpInfo c = x.smpInfo c := by
    rcases h.handed with hc | hg
    · rw [hr.boot hc]
    · exact hr.entry hg
  refine ⟨hr.locals.trans h.data, h.segment, ?_, ?_⟩
  · unfold Ready
    rw [he]
    exact h.entry
  · rw [he]
    exact h.handed

/-- What CPU `c` must know to make a command without getting in the way of the
others: shared data is written with the lock held, an entry only by the boot CPU
before it is handed over, and `cpu_locals` only at the own index. -/
def SmpCmd.Needs (t : SmpTag) (c : Fin t.cpuCount) (held : Bool) (x : SmpMemory) (y : SmpRegs) :
    SmpCmd → Prop
  | .acquire => held = false
  | .release => held = true
  | .setArgument i | .setStack i => held = true ∧ c = t.bsp ∧ (x.smpInfo i).gotoAddress = 0
  | .setGoto i => held = true ∧ c = t.bsp ∧ (x.smpInfo i).gotoAddress = 0 ∧ Ready t i x
  | .storeNumber | .storeLapicId | .storeStack => held = true ∧ y.cpuNum = c
  | .tssStore _ => held = true
  | .tssLoad => held = true ∧ y.gdtLoaded = true ∧ x.tssDescriptor.flags1 = tssAvailable
  | .storeOnline => held = true ∧ y.online = x.cpusOnline ∧ Initialised t c x y
  | .loadArgument _ | .loadLapicId _ | .loadStack _ | .gdtLoad | .loadOnline | .wait | .work => True

/-- Holding the lock or not, after a command. -/
def SmpCmd.heldAfter (held : Bool) : SmpCmd → Bool
  | .acquire => true
  | .release => false
  | _ => held

/-- What a CPU may find in memory before its next command. -/
def Seen (t : SmpTag) (c : Fin t.cpuCount) (held : Bool) (x x' : SmpMemory) : Prop :=
  if held then x' = x else Rely t c x x'

/-- All of `code` can be run in memory `x`, whatever the other CPUs do while the
lock is not held; the CPU counts itself once, when it is initialised, and stays so. -/
def Sound (t : SmpTag) (c : Fin t.cpuCount) : Bool → List SmpCmd → SmpMemory → SmpRegs →
    Prop
  | held, [], x, y => held = false ∧ Initialised t c x y
  | held, k :: rest, x, y => ∀ x', Seen t c held x x' →
      (.storeOnline ∉ k :: rest → Initialised t c x' y) ∧
      (k = .storeOnline → .storeOnline ∉ rest) ∧ k.Needs t c held x' y ∧
      ∀ z w, k.exec t x' y = some (z, w) → Sound t c (k.heldAfter held) rest z w

/-- Other CPUs do not get in the way as long as the lock is not held. -/
theorem Sound.rely {code : List SmpCmd} (h : Sound t c false code x y) (hr : Rely t c x x') :
    Sound t c false code x' y := by
  cases code with
  | nil => exact ⟨rfl, h.2.rely hr⟩
  | cons k rest =>
    intro x'' hseen
    exact h x'' (hr.trans hseen)

theorem Seen.refl (t : SmpTag) (c : Fin t.cpuCount) (held : Bool) (x : SmpMemory) :
    Seen t c held x x := by
  cases held with
  | true => rfl
  | false => exact Rely.refl t c x

/-- A finished CPU is initialised. -/
theorem Sound.initialised {held : Bool} {code : List SmpCmd} (h : Sound t c held code x y)
    (hdone : .storeOnline ∉ code) : Initialised t c x y := by
  cases code with
  | nil => exact h.2
  | cons k rest => exact (h x (Seen.refl t c held x)).1 hdone

theorem Rely.same {z : SmpMemory} (hinfo : z.smpInfo = x.smpInfo)
    (hlocals : z.cpuLocals = x.cpuLocals) : Rely t d x z := by
  refine ⟨by rw [hlocals], fun _ => hinfo, fun _ => by rw [hinfo], fun hg => .inl ?_⟩
  rwa [hinfo] at hg

/-- The boot CPU writes to an entry that it has not handed over. -/
theorem Rely.setInfo (hd : d ≠ t.bsp) {i : Nat} {v : SmpInfo}
    (hgoto : (x.smpInfo i).gotoAddress = 0)
    (hv : v.gotoAddress ≠ 0 → v.extraArgument = i ∧ v.targetStack = t.stackTop i) :
    Rely t d x (x.setInfo i v) := by
  by_cases hdi : (d : Nat) = i
  · subst hdi
    refine ⟨rfl, fun hb => absurd hb hd, fun hg => absurd hgoto hg, fun hg => .inr ?_⟩
    simp only [SmpMemory.setInfo, Function.update_self] at hg
    simp only [Ready, SmpMemory.setInfo, Function.update_self]
    exact hv hg
  · have hsame : (x.setInfo i v).smpInfo d = x.smpInfo d := by
      simp only [SmpMemory.setInfo, Function.update_of_ne hdi]
    refine ⟨rfl, fun hb => absurd hb hd, fun _ => hsame, fun hg => .inl ?_⟩
    rwa [hsame] at hg

theorem Rely.setLocal {n : Nat} {v : CpuLocal} (hn : (d : Nat) ≠ n) :
    Rely t d x (x.setLocal n v) := by
  refine ⟨?_, fun _ => rfl, fun _ => rfl, fun hg => .inl hg⟩
  simp only [SmpMemory.setLocal, Function.update_of_ne hn]

section Guarantee

variable {k : SmpCmd} {held : Bool} {z : SmpMemory} {w : SmpRegs}

/-- A command made with what it needs is one the other CPUs can rely on. -/
theorem SmpCmd.Needs.rely (h : k.Needs t c held x y) (hexec : k.exec t x y = some (z, w))
    (hdc : d ≠ c) : Rely t d x z := by
  have hne : ∀ {n : Nat}, n = c → (d : Nat) ≠ n := by
    rintro n rfl he
    exact hdc (Fin.ext he)
  cases k with
  | acquire | release | work | loadArgument | loadLapicId | loadStack | gdtLoad | loadOnline =>
    simp only [SmpCmd.exec, Option.some.injEq, Prod.mk.injEq] at hexec
    rw [← hexec.1]
    exact Rely.refl t d x
  | setArgument i | setStack i =>
    simp only [SmpCmd.exec, Option.some.injEq, Prod.mk.injEq] at hexec
    obtain ⟨-, hb, hgoto⟩ := h
    rw [← hexec.1]
    exact Rely.setInfo (hb ▸ hdc) hgoto (fun hg => absurd hgoto hg)
  | setGoto i =>
    simp only [SmpCmd.exec, Option.some.injEq, Prod.mk.injEq] at hexec
    obtain ⟨-, hb, hgoto, hready⟩ := h
    rw [← hexec.1]
    exact Rely.setInfo (hb ▸ hdc) hgoto (fun _ => hready)
  | storeNumber | storeLapicId | storeStack =>
    simp only [SmpCmd.exec, Option.some.injEq, Prod.mk.injEq] at hexec
    rw [← hexec.1]
    exact Rely.setLocal (hne h.2)
  | tssStore f =>
    simp only [SmpCmd.exec, Option.some.injEq, Prod.mk.injEq] at hexec
    rw [← hexec.1]
    exact Rely.same rfl rfl
  | tssLoad =>
    simp only [SmpCmd.exec, h.2.1, if_true, Option.map_eq_some_iff, Prod.mk.injEq] at hexec
    obtain ⟨r, -, hz, -⟩ := hexec
    rw [← hz]
    exact Rely.same rfl rfl
  | storeOnline =>
    simp only [SmpCmd.exec, Option.some.injEq, Prod.mk.injEq] at hexec
    rw [← hexec.1]
    exact Rely.same rfl rfl
  | wait =>
    simp only [SmpCmd.exec] at hexec
    split_ifs at hexec
    simp only [Option.some.injEq, Prod.mk.injEq] at hexec
    rw [← hexec.1]
    exact Rely.refl t d x

/-- Memory is written with the lock held only. -/
theorem SmpCmd.Needs.unchanged (h : k.Needs t c false x y) (hexec : k.exec t x y = some (z, w)) :
    z = x := by
  cases k with
  | acquire | release | work | loadArgument | loadLapicId | loadStack | gdtLoad | loadOnline =>
    simp only [SmpCmd.exec, Option.some.injEq, Prod.mk.injEq] at hexec
    exact hexec.1.symm
  | setArgument | setStack | setGoto | storeNumber | storeLapicId | storeStack | tssLoad |
    storeOnline => exact absurd h.1 (by decide)
  | tssStore => exact absurd h (by simp [SmpCmd.Needs])
  | wait =>
    simp only [SmpCmd.exec] at hexec
    split_ifs at hexec
    simp only [Option.some.injEq, Prod.mk.injEq] at hexec
    exact hexec.1.symm

/-- The counter changes only when a CPU counts itself. -/
theorem SmpCmd.exec_online (hk : k ≠ .storeOnline) (hexec : k.exec t x y = some (z, w)) :
    z.cpusOnline = x.cpusOnline := by
  cases k with
  | storeOnline => exact absurd rfl hk
  | acquire | release | work | loadArgument | loadLapicId | loadStack | gdtLoad | loadOnline |
    setArgument | setStack | setGoto | storeNumber | storeLapicId | storeStack | tssStore =>
    simp only [SmpCmd.exec, Option.some.injEq, Prod.mk.injEq] at hexec
    obtain ⟨rfl, -⟩ := hexec
    rfl
  | tssLoad =>
    simp only [SmpCmd.exec] at hexec
    split_ifs at hexec
    simp only [Option.map_eq_some_iff, Prod.mk.injEq] at hexec
    obtain ⟨r, -, hz, -⟩ := hexec
    rw [← hz]
  | wait =>
    simp only [SmpCmd.exec] at hexec
    split_ifs at hexec
    simp only [Option.some.injEq, Prod.mk.injEq] at hexec
    rw [hexec.1]

end Guarantee

section Programs

variable {k : SmpCmd} {rest : List SmpCmd} {z : SmpMemory} {w : SmpRegs}

/-- One command under the lock. -/
theorem Sound.cons (hdone : .storeOnline ∉ rest → Initialised t c x y) (hk : k ≠ .storeOnline)
    (hneeds : k.Needs t c true x y) (hexec : k.exec t x y = some (z, w))
    (h : Sound t c (k.heldAfter true) rest z w) : Sound t c true (k :: rest) x y := by
  rintro x' rfl
  refine ⟨fun hout => hdone (fun hin => hout (List.mem_cons_of_mem k hin)),
    fun he => absurd he hk, hneeds, fun z' w' hexec' => ?_⟩
  rw [hexec] at hexec'
  simp only [Option.some.injEq, Prod.mk.injEq] at hexec'
  obtain ⟨rfl, rfl⟩ := hexec'
  exact h

/-- One command before the CPU counts itself. -/
theorem Sound.step (hin : .storeOnline ∈ rest) (hk : k ≠ .storeOnline)
    (hneeds : k.Needs t c true x y) (hexec : k.exec t x y = some (z, w))
    (h : Sound t c (k.heldAfter true) rest z w) : Sound t c true (k :: rest) x y :=
  Sound.cons (fun hout => absurd hin hout) hk hneeds hexec h

theorem Sound.acquire (hdone : .storeOnline ∉ rest → Initialised t c x y)
    (h : ∀ x', Rely t c x x' → Sound t c true rest x' y) :
    Sound t c false (.acquire :: rest) x y := by
  intro x' hr
  refine ⟨fun hout => (hdone (fun hin => hout (List.mem_cons_of_mem _ hin))).rely hr,
    fun he => by simp at he, rfl, fun z w hexec => ?_⟩
  simp only [SmpCmd.exec, Option.some.injEq, Prod.mk.injEq] at hexec
  obtain ⟨rfl, rfl⟩ := hexec
  exact h x' hr

theorem sound_tssStores (fs : List TssField) (hin : .storeOnline ∈ rest)
    (h : ∀ d, d = fs.foldl (fun d f => d.store (t.tssAddr y.cpuNum) f) x.tssDescriptor →
      Sound t c true rest { x with tssDescriptor := d } y) :
    Sound t c true (fs.map .tssStore ++ rest) x y := by
  induction fs generalizing x with
  | nil => exact h _ rfl
  | cons f fs ih =>
    have hin' : SmpCmd.storeOnline ∈ fs.map .tssStore ++ rest := List.mem_append_right _ hin
    exact Sound.step hin' (by simp) rfl rfl (ih h)

/-- The first half of `generic_cpu_local_init`: the entry is read and copied. -/
theorem sound_fillLocal (hin : .storeOnline ∈ rest) (hready : Ready t c x)
    (h : ∀ (x' : SmpMemory) (y' : SmpRegs), x'.smpInfo = x.smpInfo →
      x'.cpuLocals c = ⟨c, t.lapicId c, t.stackTop c⟩ →
      y'.cpuNum = c → y'.gdtLoaded = y.gdtLoaded → Sound t c true rest x' y') :
    Sound t c true ([.loadArgument c, .loadLapicId c, .loadStack c, .storeNumber, .storeLapicId,
      .storeStack] ++ rest) x y := by
  obtain ⟨harg, hstack⟩ := hready
  simp only [List.cons_append, List.nil_append]
  refine Sound.step (by simp [hin]) (by simp) trivial rfl ?_
  refine Sound.step (by simp [hin]) (by simp) trivial rfl ?_
  refine Sound.step (by simp [hin]) (by simp) trivial rfl ?_
  refine Sound.step (by simp [hin]) (by simp) ⟨rfl, harg⟩ rfl ?_
  refine Sound.step (by simp [hin]) (by simp) ⟨rfl, harg⟩ rfl ?_
  refine Sound.step hin (by simp) ⟨rfl, harg⟩ rfl ?_
  refine h _ _ rfl ?_ harg rfl
  simp only [SmpMemory.setLocal, harg, hstack, Function.update_self]

/-- The second half: the segment is described anew and loaded. -/
theorem sound_loadSegment (hin : .storeOnline ∈ rest) (hnum : y.cpuNum = c)
    (hgdt : y.gdtLoaded = true)
    (h : ∀ x' y', x'.smpInfo = x.smpInfo → x'.cpuLocals = x.cpuLocals →
      y'.taskRegister = some (t.tssAddr c) → y'.gdtLoaded = true → Sound t c true rest x' y') :
    Sound t c true (tssCreateSegment.map .tssStore ++ ([.tssLoad, .work] ++ rest)) x y := by
  refine sound_tssStores _ (by simp [hin]) (fun d hd => ?_)
  obtain ⟨d', hltr⟩ := ltr_tssCreateSegment x.tssDescriptor (t.tssAddr_lt c)
  rw [hnum] at hd
  rw [← hd] at hltr
  have hexec : SmpCmd.tssLoad.exec t { x with tssDescriptor := d } y =
      some ({ x with tssDescriptor := d' }, { y with taskRegister := some (t.tssAddr c) }) := by
    simp only [SmpCmd.exec, hgdt, if_true, hltr, Option.map_some]
  refine Sound.step (by simp [hin]) (by simp)
    ⟨rfl, hgdt, TssDescriptor.available_of_ltr hltr⟩ hexec ?_
  exact Sound.step hin (by simp) trivial rfl (h _ _ rfl rfl rfl hgdt)

/-- `generic_cpu_local_init` fills in the CPU's own data and loads its segment. -/
theorem sound_genericCpuLocalInit (hin : .storeOnline ∈ rest) (hready : Ready t c x)
    (hgdt : y.gdtLoaded = true)
    (h : ∀ x' y', x'.smpInfo = x.smpInfo →
      x'.cpuLocals c = ⟨c, t.lapicId c, t.stackTop c⟩ →
      y'.taskRegister = some (t.tssAddr c) → y'.gdtLoaded = true → Sound t c true rest x' y') :
    Sound t c true (genericCpuLocalInit c ++ rest) x y := by
  unfold genericCpuLocalInit
  rw [List.append_assoc, List.append_assoc]
  refine sound_fillLocal (by simp [hin]) hready (fun x₁ y₁ hinfo hlocal hnum hgdt₁ => ?_)
  refine sound_loadSegment hin hnum (hgdt₁.trans hgdt)
    (fun x₂ y₂ hinfo₂ hlocal₂ htr hgdt₂ => ?_)
  exact h x₂ y₂ (hinfo₂.trans hinfo) (by rw [hlocal₂, hlocal]) htr hgdt₂

/-- An initialised CPU counts itself. -/
theorem sound_cpuOnline (hout : .storeOnline ∉ rest) (hinit : Initialised t c x y)
    (h : ∀ x' y', Initialised t c x' y' → x'.smpInfo = x.smpInfo →
      y'.gdtLoaded = y.gdtLoaded →
      Sound t c true rest x' y') : Sound t c true (cpuOnline ++ rest) x y := by
  refine Sound.step (by simp) (by simp) trivial rfl ?_
  refine Sound.step (by simp) (by simp) trivial rfl ?_
  rintro x' rfl
  have hinit' : Initialised t c x' { y with online := x'.cpusOnline } :=
    ⟨hinit.data, hinit.segment, hinit.entry, hinit.handed⟩
  refine ⟨fun hno => absurd (List.mem_cons_self ..) hno, fun _ => hout,
    ⟨rfl, rfl, hinit'⟩, ?_⟩
  intro z w hexec
  simp only [SmpCmd.exec, Option.some.injEq, Prod.mk.injEq] at hexec
  obtain ⟨rfl, rfl⟩ := hexec
  exact h _ _ ⟨hinit.data, hinit.segment, hinit.entry, hinit.handed⟩ rfl rfl

/-- After that, code that writes nothing keeps the CPU initialised. -/
theorem Sound.after {held : Bool} (hout : .storeOnline ∉ k :: rest)
    (hinit : Initialised t c x y) (hneeds : ∀ x', k.Needs t c held x' y)
    (hexec : ∀ x' z w, k.exec t x' y = some (z, w) → z = x' ∧ w = y)
    (h : ∀ x', Initialised t c x' y → Sound t c (k.heldAfter held) rest x' y) :
    Sound t c held (k :: rest) x y := by
  intro x' hseen
  have hinit' : Initialised t c x' y := by
    cases held with
    | true =>
      obtain rfl : x' = x := hseen
      exact hinit
    | false => exact hinit.rely hseen
  refine ⟨fun _ => hinit', ?_, hneeds x', fun z w hzw => ?_⟩
  · rintro rfl
    simp at hout
  · obtain ⟨rfl, rfl⟩ := hexec x' z w hzw
    exact h z hinit'

theorem sound_apInit (hgoto : (x.smpInfo c).gotoAddress ≠ 0) (hready : Ready t c x) :
    Sound t c false (apInit c) x y := by
  have hin : ∀ l, SmpCmd.storeOnline ∈ cpuOnline ++ l := by simp [cpuOnline]
  simp only [apInit, List.cons_append, List.nil_append]
  refine Sound.acquire (fun hout => absurd (by simp [hin]) hout) (fun x₁ hr => ?_)
  have hentry := hr.entry hgoto
  refine Sound.step (by simp [hin]) (by simp) trivial rfl ?_
  refine Sound.step (by simp [hin]) (by simp) trivial rfl ?_
  refine Sound.step (by simp [hin]) (by simp) trivial rfl ?_
  refine Sound.step (by simp [hin]) (by simp) trivial rfl ?_
  refine sound_genericCpuLocalInit (by simp [hin]) (by unfold Ready; rwa [hentry]) rfl ?_
  intro x₂ y₂ hinfo hlocal htr _
  have hinit : Initialised t c x₂ y₂ := by
    refine ⟨hlocal, htr, ?_, .inr ?_⟩
    · unfold Ready
      rwa [hinfo, hentry]
    · rwa [hinfo, hentry]
  refine Sound.step (hin _) (by simp) trivial rfl ?_
  refine sound_cpuOnline (by simp) hinit (fun x₃ y₃ hinit₃ _ _ => ?_)
  refine Sound.cons (fun _ => hinit₃) (by simp) rfl rfl ?_
  refine Sound.after (by simp) hinit₃ (fun _ => trivial) ?_
    (fun x₄ hinit₄ => ⟨rfl, hinit₄⟩)
  intro x' z w hexec
  simp only [SmpCmd.exec, Option.some.injEq, Prod.mk.injEq] at hexec
  exact ⟨hexec.1.symm, hexec.2.symm⟩

theorem Initialised.setInfo (h : Initialised t c x y) {i : Nat} (hi : (c : Nat) ≠ i)
    (v : SmpInfo) :
    Initialised t c (x.setInfo i v) y := by
  have hsame : (x.setInfo i v).smpInfo c = x.smpInfo c := by
    simp only [SmpMemory.setInfo, Function.update_of_ne hi]
  refine ⟨h.data, h.segment, ?_, ?_⟩
  · unfold Ready
    rw [hsame]
    exact h.entry
  · rw [hsame]
    exact h.handed

/-- The boot CPU has handed over no entry from `i` on. -/
def Unhanded (i : Nat) (x : SmpMemory) : Prop := ∀ j, i ≤ j → (x.smpInfo j).gotoAddress = 0

theorem Unhanded.setInfo {i : Nat} {v : SmpInfo} (h : Unhanded (i + 1) x) :
    Unhanded (i + 1) (x.setInfo i v) := by
  intro j hj
  have hji : j ≠ i := by omega
  simp only [SmpMemory.setInfo, Function.update_of_ne hji]
  exact h j hj

theorem Unhanded.succ {i : Nat} (h : Unhanded i x) : Unhanded (i + 1) x :=
  fun j hj => h j (by omega)

/-- A turn of the loop that hands an entry over to its AP. -/
theorem sound_apTurn {i : Nat} (hi : (t.bsp : Nat) ≠ i) (hfree : Unhanded i x)
    (hdone : .storeOnline ∉ rest → Initialised t t.bsp x y)
    (h : ∀ x', Unhanded (i + 1) x' → (.storeOnline ∉ rest → Initialised t t.bsp x' y) →
      Sound t t.bsp false rest x' y) :
    Sound t t.bsp false ([.acquire, .setArgument i, .setStack i, .setGoto i, .release] ++ rest)
      x y := by
  simp only [List.cons_append, List.nil_append]
  refine Sound.acquire (fun hout => hdone (by simpa using hout)) (fun x₁ hr => ?_)
  have hdone₁ : .storeOnline ∉ rest → Initialised t t.bsp x₁ y :=
    fun hout => (hdone hout).rely hr
  have hfree₁ : Unhanded i x₁ := by
    intro j hj
    rw [hr.boot rfl]
    exact hfree j hj
  have hgoto : (x₁.smpInfo i).gotoAddress = 0 := hfree₁ i le_rfl
  refine Sound.cons (fun hout => hdone₁ (by simpa using hout)) (by simp)
    ⟨rfl, rfl, hgoto⟩ rfl ?_
  refine Sound.cons (fun hout => (hdone₁ (by simpa using hout)).setInfo hi _) (by simp)
    ⟨rfl, rfl, by simp [SmpMemory.setInfo, hgoto]⟩ rfl ?_
  refine Sound.cons (fun hout => ((hdone₁ (by simpa using hout)).setInfo hi _).setInfo hi _)
    (by simp) ⟨rfl, rfl, by simp [SmpMemory.setInfo, hgoto], by simp [Ready, SmpMemory.setInfo]⟩
    rfl ?_
  refine Sound.cons (fun hout => (((hdone₁ hout).setInfo hi _).setInfo hi _).setInfo hi _)
    (by simp) rfl rfl ?_
  refine h _ hfree₁.succ.setInfo.setInfo.setInfo ?_
  exact fun hout => (((hdone₁ hout).setInfo hi _).setInfo hi _).setInfo hi _

/-- The turn in which the boot CPU initialises itself. -/
theorem sound_bspTurn (hfree : Unhanded t.bsp x) (hgdt : y.gdtLoaded = true)
    (hout : .storeOnline ∉ rest)
    (h : ∀ x' y', Unhanded (t.bsp + 1) x' → y'.gdtLoaded = true →
      Initialised t t.bsp x' y' →
      Sound t t.bsp false rest x' y') :
    Sound t t.bsp false ([.acquire, .setArgument t.bsp, .setStack t.bsp] ++
      (bspInit t.bsp ++ (.release :: rest))) x y := by
  have hin : ∀ l, SmpCmd.storeOnline ∈ cpuOnline ++ l := by simp [cpuOnline]
  simp only [bspInit, List.cons_append, List.nil_append, List.append_assoc]
  refine Sound.acquire (fun hno => absurd (by simp [hin]) hno) (fun x₁ hr => ?_)
  have hfree₁ : Unhanded t.bsp x₁ := by
    intro j hj
    rw [hr.boot rfl]
    exact hfree j hj
  have hgoto : (x₁.smpInfo t.bsp).gotoAddress = 0 := hfree₁ t.bsp le_rfl
  refine Sound.step (by simp [hin]) (by simp) ⟨rfl, rfl, hgoto⟩ rfl ?_
  refine Sound.step (by simp [hin]) (by simp)
    ⟨rfl, rfl, by simp [SmpMemory.setInfo, hgoto]⟩ rfl ?_
  refine sound_genericCpuLocalInit (hin _) (by simp [Ready, SmpMemory.setInfo]) hgdt ?_
  intro x₂ y₂ hinfo hlocal htr hgdt₂
  have hinit : Initialised t t.bsp x₂ y₂ := by
    refine ⟨hlocal, htr, ?_, .inl rfl⟩
    unfold Ready
    rw [hinfo]
    simp [SmpMemory.setInfo]
  refine sound_cpuOnline (by simpa using hout) hinit (fun x₃ y₃ hinit₃ hinfo₃ hgdt₃ => ?_)
  refine Sound.cons (fun _ => hinit₃) (by simp) rfl rfl ?_
  refine h x₃ y₃ ?_ (hgdt₃.trans hgdt₂) hinit₃
  intro j hj
  rw [hinfo₃, hinfo]
  exact hfree₁.succ.setInfo.setInfo j hj

/-- The turns that are left contain the boot CPU's own. -/
theorem storeOnline_mem_turns {i n : Nat} (hlen : i + n = t.cpuCount) :
    .storeOnline ∈ (List.range' i n).flatMap (smpInitTurn t) ++ [.wait, .work] ↔
      i ≤ t.bsp := by
  have hb := t.bsp.isLt
  have hap : ∀ j, j < t.cpuCount → SmpCmd.storeOnline ∈ smpInitTurn t j → j = t.bsp := by
    intro j hj hmem
    by_contra hne
    have hid : t.lapicId j ≠ t.bspLapicId := fun he => hne (t.eq_bsp hj he)
    simp [smpInitTurn, hid] at hmem
  have hown : SmpCmd.storeOnline ∈ smpInitTurn t t.bsp := by
    simp [smpInitTurn, t.bsp_id, bspInit, cpuOnline]
  simp only [List.mem_append, List.mem_flatMap, List.mem_range'_1]
  constructor
  · rintro (⟨j, ⟨hij, hj⟩, hmem⟩ | htail)
    · exact hap j (by omega) hmem ▸ hij
    · simp at htail
  · exact fun hi => .inl ⟨t.bsp, ⟨hi, by omega⟩, hown⟩

/-- The loop of `smp_init` from turn `i` on. -/
theorem sound_turns {i n : Nat} (hlen : i + n = t.cpuCount) (hfree : Unhanded i x)
    (hgdt : y.gdtLoaded = true) (hdone : t.bsp < i → Initialised t t.bsp x y) :
    Sound t t.bsp false ((List.range' i n).flatMap (smpInitTurn t) ++ [.wait, .work]) x y := by
  induction n generalizing i x y with
  | zero =>
    have hinit := hdone (by have := t.bsp.isLt; omega)
    refine Sound.after (by simp) hinit (fun _ => trivial) ?_ (fun x₁ hinit₁ => ?_)
    · intro x' z w hexec
      simp only [SmpCmd.exec] at hexec
      split_ifs at hexec
      simp only [Option.some.injEq, Prod.mk.injEq] at hexec
      exact ⟨hexec.1.symm, hexec.2.symm⟩
    · refine Sound.after (by simp) hinit₁ (fun _ => trivial) ?_
        (fun x₂ hinit₂ => ⟨rfl, hinit₂⟩)
      intro x' z w hexec
      simp only [SmpCmd.exec, Option.some.injEq, Prod.mk.injEq] at hexec
      exact ⟨hexec.1.symm, hexec.2.symm⟩
  | succ n ih =>
    have hlen' : i + 1 + n = t.cpuCount := by omega
    have hmem := storeOnline_mem_turns hlen'
    rw [List.range'_succ, List.flatMap_cons]
    by_cases hi : i = t.bsp
    · subst hi
      simp only [smpInitTurn, t.bsp_id, if_true, List.append_assoc, List.cons_append,
        List.nil_append]
      refine sound_bspTurn hfree hgdt (fun hin => ?_)
        (fun x₁ y₁ hfree₁ hgdt₁ hinit₁ => ?_)
      · have := hmem.mp hin
        omega
      · exact ih hlen' hfree₁ hgdt₁ (fun _ => hinit₁)
    · have hid : t.lapicId i ≠ t.bspLapicId := fun he => hi (t.eq_bsp (by omega) he)
      simp only [smpInitTurn, hid, if_false, List.append_assoc]
      have hafter : .storeOnline ∉ (List.range' (i + 1) n).flatMap (smpInitTurn t) ++
          [.wait, .work] → (t.bsp : Nat) < i := by
        intro hout
        have : ¬ i + 1 ≤ t.bsp := fun h => hout (hmem.mpr h)
        omega
      refine sound_apTurn (Ne.symm hi) hfree (fun hout => hdone (hafter hout))
        (fun x₁ hfree₁ hdone₁ => ?_)
      refine ih hlen' hfree₁ hgdt (fun hlt => hdone₁ (fun hin => ?_))
      have := hmem.mp hin
      omega

end Programs

/-- The rest of a started CPU's function is sound, from inside a spinlock function
too. -/
def SmpCpu.Running (t : SmpTag) (c : Fin t.cpuCount) (x : SmpMemory) (y : SmpCpu) : Prop :=
  match y.cpu.pc with
  | .idle | .readFlag _ | .storeFlag _ _ | .cli _ =>
    Sound t c (!y.cpu.held.isEmpty) y.code x y.regs
  | .testAndSet _ => Sound t c false (.acquire :: y.code) x y.regs
  | .loadFlag _ | .stiOrCli _ _ | .clear _ => Sound t c true (.release :: y.code) x y.regs

/-- The condition of one CPU: before it starts, its entry is ready once it is handed
over. -/
structure SmpCpu.Ok (t : SmpTag) (c : Fin t.cpuCount) (x : SmpShared) (y : SmpCpu) : Prop where
  owns : y.cpu.Owns x.locks
  waiting : y.started = false → c ≠ t.bsp ∧ y.cpu.Outside ∧ y.code = [] ∧
    ((x.mem.smpInfo c).gotoAddress ≠ 0 → Ready t c x.mem)
  running : y.started = true → y.Running t c x.mem

section Moves

variable {g g' : SmpShared} {a b a' : SmpCpu}

theorem Cpu.Owns.held_unit {x : Unit → Spinlock} {y : Cpu Unit} (h : y.Owns x)
    (hne : y.held ≠ []) :
    y.held = [()] := by
  cases hheld : y.held with
  | nil => exact absurd hheld hne
  | cons u us =>
    have hnd := h.nodup
    rw [hheld] at hnd
    cases us with
    | nil => rfl
    | cons v vs => exact absurd (List.mem_cons_self ..) (List.nodup_cons.mp hnd).1

/-- Between two commands a CPU is sound for the next. -/
theorem SmpCpu.Ok.sound (hok : a.Ok t c g) {k : SmpCmd} {rest : List SmpCmd}
    (hcode : a.code = k :: rest) (hpc : a.cpu.pc = .idle) :
    a.started = true ∧ Sound t c (!a.cpu.held.isEmpty) (k :: rest) g.mem a.regs := by
  have hstarted : a.started = true := by
    by_contra hno
    rw [(hok.waiting (by simpa using hno)).2.2.1] at hcode
    simp at hcode
  have hr := hok.running hstarted
  simp only [SmpCpu.Running, hpc, hcode] at hr
  exact ⟨hstarted, hr⟩

/-- What a move does to the lock and to memory. -/
theorem SmpMove.effect (h : SmpMove t c g a (g', a')) (hok : a.Ok t c g) :
    ((g'.locks = g.locks ∧ a'.cpu = a.cpu) ∨
      ∃ m : SpinAct Unit, m.WellNested a.cpu ∧ a.cpu.Move g.locks m (g'.locks, a'.cpu)) ∧
    (g'.mem = g.mem ∨ a.cpu.held ≠ [] ∧ ∀ d, d ≠ c → Rely t d g.mem g'.mem) := by
  cases h with
  | spin h => exact ⟨.inr ⟨.step, trivial, Cpu.move_of_step h⟩, .inl rfl⟩
  | acquire hcode h =>
    have hm := Cpu.move_of_exec h
    refine ⟨.inr ⟨.acquire (), ?_, hm⟩, .inl rfl⟩
    cases hm with
    | acquire hpc =>
      obtain ⟨-, -, hneeds, -⟩ := (hok.sound hcode hpc).2 _ (Seen.refl t c _ _)
      have hnone : a.cpu.held = [] := by simpa [SmpCmd.Needs] using hneeds
      simp [SpinAct.WellNested, hnone]
  | release hcode h =>
    have hm := Cpu.move_of_exec h
    refine ⟨.inr ⟨.release (), ?_, hm⟩, .inl rfl⟩
    cases hm with
    | release hpc =>
      obtain ⟨-, -, hneeds, -⟩ := (hok.sound hcode hpc).2 _ (Seen.refl t c _ _)
      have hsome : a.cpu.held ≠ [] := by simpa [SmpCmd.Needs] using hneeds
      simp [SpinAct.WellNested, hok.owns.held_unit hsome]
  | cmd hcode hpc hk h =>
    refine ⟨.inl ⟨rfl, rfl⟩, ?_⟩
    obtain ⟨-, -, hneeds, -⟩ := (hok.sound hcode hpc).2 _ (Seen.refl t c _ _)
    by_cases hheld : a.cpu.held = []
    · rw [hheld] at hneeds
      exact .inl (hneeds.unchanged h)
    · exact .inr ⟨hheld, fun d hd => hneeds.rely h hd⟩
  | start => exact ⟨.inl ⟨rfl, rfl⟩, .inl rfl⟩

/-- A step inside a spinlock function takes up the function where it was left. -/
theorem SmpCpu.Running.step {m : SmpMemory} {locks locks' : Unit → Spinlock} {cpu : Cpu Unit}
    (h : a.Running t c m) (hown : a.cpu.Owns locks)
    (hm : a.cpu.Move locks .step (locks', cpu)) :
    SmpCpu.Running t c m { a with cpu := cpu } := by
  have hnext : ∀ {held k}, Sound t c held (k :: a.code) m a.regs → k.exec t m a.regs =
      some (m, a.regs) → Sound t c (k.heldAfter held) a.code m a.regs :=
    fun hs he => (hs m (Seen.refl t c _ m)).2.2.2 m a.regs he
  unfold SmpCpu.Running at h ⊢
  cases hm with
  | spin hpc _ => exact h
  | take hpc _ =>
    simp only [hpc] at h ⊢
    exact hnext h rfl
  | readFlag hpc | storeFlag hpc | cli hpc | loadFlag hpc | stiOrCli hpc =>
    simpa only [hpc] using h
  | clear hpc =>
    have hheld := hown.held_unit (fun he => by simpa [hpc, he, SpinPc.owned] using hown.last ())
    simp only [hpc, hheld, List.erase_cons_head] at h ⊢
    exact hnext h rfl

theorem SmpCpu.Ok.move (hok : a.Ok t c g) (h : SmpMove t c g a (g', a')) : a'.Ok t c g' := by
  have heff := (h.effect hok).1
  have howns : a'.cpu.Owns g'.locks := by
    rcases heff with ⟨hlocks, hcpu⟩ | ⟨m, hm, hmove⟩
    · rw [hlocks, hcpu]
      exact hok.owns
    · exact hok.owns.move hm hmove
  cases h with
  | spin h =>
    refine ⟨howns, fun hno => ?_, fun hyes => ?_⟩
    · have hidle := (hok.waiting hno).2.1.1
      simp [Cpu.step, hidle] at h
    · exact (hok.running hyes).step hok.owns (Cpu.move_of_step h)
  | acquire hcode h =>
    cases Cpu.move_of_exec h with
    | acquire hpc =>
      obtain ⟨hstarted, hr⟩ := hok.sound hcode hpc
      obtain ⟨-, -, hneeds, -⟩ := hr _ (Seen.refl t c _ _)
      refine ⟨howns, fun hno => by simp [hstarted] at hno, fun _ => ?_⟩
      rwa [show (!a.cpu.held.isEmpty) = false from hneeds] at hr
  | release hcode h =>
    cases Cpu.move_of_exec h with
    | release hpc =>
      obtain ⟨hstarted, hr⟩ := hok.sound hcode hpc
      obtain ⟨-, -, hneeds, -⟩ := hr _ (Seen.refl t c _ _)
      refine ⟨howns, fun hno => by simp [hstarted] at hno, fun _ => ?_⟩
      rwa [show (!a.cpu.held.isEmpty) = true from hneeds] at hr
  | @cmd k rest mem regs hcode hpc hk h =>
    obtain ⟨hstarted, hr⟩ := hok.sound hcode hpc
    refine ⟨howns, fun hno => by simp [hstarted] at hno, fun _ => ?_⟩
    · simp only [SmpCpu.Running, hpc]
      have hnext := (hr _ (Seen.refl t c _ _)).2.2.2 mem regs h
      have hheld : k.heldAfter (!a.cpu.held.isEmpty) = !a.cpu.held.isEmpty := by
        cases k with
        | acquire => exact absurd rfl hk.1
        | release => exact absurd rfl hk.2
        | _ => rfl
      rwa [hheld] at hnext
  | start hwait hgoto =>
    obtain ⟨-, ⟨hpc, hheld⟩, -, hready⟩ := hok.waiting hwait
    have hne : (g.mem.smpInfo c).gotoAddress ≠ 0 := hgoto ▸ t.apInit_ne
    refine ⟨howns, fun hno => by simp at hno, fun _ => ?_⟩
    simp only [SmpCpu.Running, hpc, hheld]
    exact sound_apInit hne (hready hne)

/-- The moves of another CPU leave a started one sound. -/
theorem SmpCpu.Running.rely {m m' : SmpMemory} {locks : Unit → Spinlock} (h : a.Running t c m)
    (hown : a.cpu.Owns locks) (hr : Rely t c m m') (hheld : a.cpu.held ≠ [] → m' = m) :
    a.Running t c m' := by
  by_cases hnone : a.cpu.held = []
  · have hpc : a.cpu.pc.owned = none := by
      cases ho : a.cpu.pc.owned with
      | none => rfl
      | some l => simpa [hnone] using hown.last l ho
    unfold SmpCpu.Running at h ⊢
    cases hpc' : a.cpu.pc with
    | idle =>
      simp only [hpc', hnone] at h ⊢
      exact h.rely hr
    | testAndSet =>
      simp only [hpc'] at h ⊢
      exact h.rely hr
    | readFlag | storeFlag | cli | loadFlag | stiOrCli | clear => simp [hpc', SpinPc.owned] at hpc
  · rwa [hheld hnone]

theorem SmpCpu.Ok.others (hok : a.Ok t c g) (hb : b.Ok t d g) (hap : a.cpu.Apart b.cpu)
    (hcd : c ≠ d) (h : SmpMove t c g a (g', a')) : b.Ok t d g' ∧ a'.cpu.Apart b.cpu := by
  obtain ⟨hlocks, hmem⟩ := h.effect hok
  have hrely : Rely t d g.mem g'.mem := by
    rcases hmem with hsame | ⟨-, hr⟩
    · rw [hsame]
      exact Rely.refl t d g.mem
    · exact hr d (Ne.symm hcd)
  have hheld : b.cpu.held ≠ [] → g'.mem = g.mem := by
    intro hbh
    rcases hmem with hsame | ⟨hah, -⟩
    · exact hsame
    · -- both would hold the lock
      have ha := hok.owns.held_unit hah
      have hb := hb.owns.held_unit hbh
      exact absurd (by simp [hb]) (hap () (by simp [ha]))
  have hlocks' : b.cpu.Owns g'.locks ∧ a'.cpu.Apart b.cpu := by
    rcases hlocks with ⟨hlocks, hcpu⟩ | ⟨m, -, hmove⟩
    · rw [hlocks, hcpu]
      exact ⟨hb.owns, hap⟩
    · exact hok.owns.others hb.owns hap hmove
  refine ⟨⟨hlocks'.1, fun hno => ?_, fun hyes => ?_⟩, hlocks'.2⟩
  · obtain ⟨hne, hout, hcode, hready⟩ := hb.waiting hno
    refine ⟨hne, hout, hcode, fun hgoto => ?_⟩
    rcases hrely.ready hgoto with hgoto | hready'
    · unfold Ready
      rw [hrely.entry hgoto]
      exact hready hgoto
    · exact hready'
  · exact (hb.running hyes).rely hb.owns hrely hheld

/-- The counter and the CPUs that are finished change together. -/
theorem SmpMove.online (h : SmpMove t c g a (g', a')) (hok : a.Ok t c g) :
    (g'.mem.cpusOnline = g.mem.cpusOnline ∧ (a'.Finished ↔ a.Finished)) ∨
    (g'.mem.cpusOnline = (g.mem.cpusOnline + 1) % 2 ^ 32 ∧ ¬ a.Finished ∧ a'.Finished) := by
  have hskip : ∀ {k rest}, a.code = k :: rest → k ≠ .storeOnline →
      (a.started = true ∧ .storeOnline ∉ rest ↔ a.Finished) := by
    intro k rest hcode hk
    simp [SmpCpu.Finished, hcode, Ne.symm hk]
  cases h with
  | spin => exact .inl ⟨rfl, Iff.rfl⟩
  | acquire hcode => exact .inl ⟨rfl, hskip hcode (by simp)⟩
  | release hcode => exact .inl ⟨rfl, hskip hcode (by simp)⟩
  | @cmd k rest mem regs hcode hpc hk h =>
    by_cases hstore : k = .storeOnline
    · subst hstore
      obtain ⟨hstarted, hr⟩ := hok.sound hcode hpc
      obtain ⟨-, hlast, ⟨-, honline, -⟩, -⟩ := hr _ (Seen.refl t c _ _)
      simp only [SmpCmd.exec, Option.some.injEq, Prod.mk.injEq] at h
      refine .inr ⟨?_, fun hfin => hfin.2 (by simp [hcode]), hstarted, hlast rfl⟩
      rw [← h.1, ← honline]
    · exact .inl ⟨SmpCmd.exec_online hstore h, hskip hcode hstore⟩
  | start hwait hgoto =>
    refine .inl ⟨rfl, ?_⟩
    simp [SmpCpu.Finished, hwait, apInit, cpuOnline]

theorem SmpCpu.Ok.initialised (hok : a.Ok t c g) (hfin : a.Finished) :
    Initialised t c g.mem a.regs := by
  obtain ⟨hstarted, hout⟩ := hfin
  have hr := hok.running hstarted
  unfold SmpCpu.Running at hr
  split at hr
  all_goals exact hr.initialised (by simpa using hout)

/-- The boot CPU leaves the wait loop when the counter has arrived. -/
theorem SmpMove.leaves_wait (h : SmpMove t c g a (g', a')) (hok : a.Ok t c g)
    (hin : .wait ∈ a.code) (hout : .wait ∉ a'.code) : g.mem.cpusOnline = t.cpuCount := by
  cases h with
  | spin => exact absurd hin hout
  | acquire hcode | release hcode =>
    rw [hcode] at hin
    exact absurd (by simpa using hin) hout
  | @cmd k rest mem regs hcode hpc hk h =>
    rw [hcode] at hin
    rcases List.mem_cons.mp hin with rfl | hin
    · simp only [SmpCmd.exec] at h
      split_ifs at h with hcount
      exact hcount
    · exact absurd hin hout
  | start hwait =>
    rw [(hok.waiting hwait).2.2.1] at hin
    simp at hin

end Moves

section StartUp

variable {s s' : Sys (Fin t.cpuCount) SmpShared SmpCpu}

def finished (s : Sys (Fin t.cpuCount) SmpShared SmpCpu) : Finset (Fin t.cpuCount) :=
  Finset.univ.filter (fun c => (s.locals c).Finished)

/-- Every CPU is consistent, the counter counts the finished ones, and the boot CPU
is past its wait loop only when all are. -/
structure SmpInv (s : Sys (Fin t.cpuCount) SmpShared SmpCpu) : Prop where
  ok : s.Holds (fun c x y => y.Ok t c x) (fun y z => y.cpu.Apart z.cpu)
  counted : s.shared.mem.cpusOnline = (finished s).card
  waited : .wait ∉ (s.locals t.bsp).code → ∀ c, (s.locals c).Finished

theorem smpAct_stable : Sys.Stable (smpAct t) (fun c x y => y.Ok t c x)
    (fun y z => y.cpu.Apart z.cpu) where
  symm := fun _ _ hap l hl hly => hap l hly hl
  own := fun _ _ _ _ _ hact hok => hok.move hact
  others := fun _ _ _ _ _ _ _ hcd hact hok hb hap => hok.others hb hap hcd hact

theorem mem_finished {c : Fin t.cpuCount} : c ∈ finished s ↔ (s.locals c).Finished := by
  simp [finished]

theorem SmpInv.move {x : SmpShared} {y : SmpCpu} (h : SmpInv s)
    (hact : smpAct t c (s.shared, s.locals c) (x, y)) : SmpInv (s.move c x y) := by
  have hok := h.ok.1 c
  have honline := SmpMove.online hact hok
  have hother : ∀ d, d ≠ c → (d ∈ finished (s.move c x y) ↔ d ∈ finished s) := by
    intro d hd
    rw [mem_finished, mem_finished, Sys.move_other s x y hd]
  have hself : c ∈ finished (s.move c x y) ↔ y.Finished := by
    rw [mem_finished, Sys.move_self]
  have hkeep : ∀ d, (s.locals d).Finished → ((s.move c x y).locals d).Finished := by
    intro d hd
    by_cases hdc : d = c
    · subst hdc
      rw [Sys.move_self]
      rcases honline with ⟨-, hiff⟩ | ⟨-, hnot, -⟩
      · exact hiff.mpr hd
      · exact absurd hd hnot
    · rwa [Sys.move_other s x y hdc]
  refine ⟨smpAct_stable.move h.ok hact, ?_, fun hout d => hkeep d ?_⟩
  · rw [Sys.move_shared]
    rcases honline with ⟨hsame, hiff⟩ | ⟨hadd, hnot, hyes⟩
    · have hset : finished (s.move c x y) = finished s := by
        ext d
        by_cases hdc : d = c
        · subst hdc
          rw [hself, hiff, mem_finished]
        · exact hother d hdc
      rw [hset, hsame]
      exact h.counted
    · have hset : finished (s.move c x y) = insert c (finished s) := by
        ext d
        by_cases hdc : d = c
        · subst hdc
          simp [hself, hyes]
        · simp [hother d hdc, hdc]
      have hcard : (finished (s.move c x y)).card = (finished s).card + 1 := by
        rw [hset, Finset.card_insert_of_notMem (fun hc => hnot (mem_finished.mp hc))]
      have hle := Finset.card_le_univ (finished (s.move c x y))
      rw [Fintype.card_fin] at hle
      have hlt := t.count_lt
      rw [hadd, hcard, h.counted]
      exact Nat.mod_eq_of_lt (by omega)
  · by_cases hin : .wait ∈ (s.locals t.bsp).code
    · have hc : c = t.bsp := by
        by_contra hne
        rw [Sys.move_other s x y (Ne.symm hne)] at hout
        exact hout hin
      subst hc
      rw [Sys.move_self] at hout
      have hall := SmpMove.leaves_wait hact hok hin hout
      have huniv : finished s = Finset.univ :=
        (Finset.card_eq_iff_eq_univ _).mp (by rw [← h.counted, hall, Fintype.card_fin])
      exact mem_finished.mp (huniv ▸ Finset.mem_univ d)
    · exact h.waited hin d

theorem SmpStart.inv (h : SmpStart t s) : SmpInv s := by
  have hbsp := t.bsp.isLt
  have hcode : smpInit t = (List.range' 0 t.cpuCount).flatMap (smpInitTurn t) ++
      [.wait, .work] := by
    rw [smpInit, List.range_eq_range']
  have hnone : ∀ c, ¬ (s.locals c).Finished := by
    intro c ⟨hstarted, hout⟩
    by_cases hc : c = t.bsp
    · rw [hc, h.boot.2.1, hcode] at hout
      exact hout ((storeOnline_mem_turns (by omega)).mpr (by omega))
    · simp [(h.aps c hc).1] at hstarted
  refine ⟨⟨fun c => ⟨?_, fun hno => ?_, fun hyes => ?_⟩, fun c d _ l hl => ?_⟩, ?_, ?_⟩
  · obtain ⟨hpc, hheld⟩ := h.idle c
    refine ⟨?_, ?_, ?_, ?_⟩
    all_goals simp [hpc, hheld, SpinPc.owned]
  · have hc : c ≠ t.bsp := by
      rintro rfl
      simp [h.boot.1] at hno
    exact ⟨hc, h.idle c, (h.aps c hc).2, fun hgoto => absurd (h.goto c) hgoto⟩
  · have hc : c = t.bsp := by
      by_contra hne
      simp [(h.aps c hne).1] at hyes
    subst hc
    simp only [SmpCpu.Running, (h.idle t.bsp).1, (h.idle t.bsp).2, h.boot.2.1, hcode]
    exact sound_turns (by omega) (fun j _ => h.goto j) h.boot.2.2 (fun hlt => by omega)
  · rw [(h.idle c).2] at hl
    simp at hl
  · have hempty : finished s = ∅ := by
      ext c
      simp [mem_finished, hnone c]
    rw [h.online, hempty, Finset.card_empty]
  · intro hout
    rw [h.boot.2.1] at hout
    simp [smpInit] at hout

/-- In every state of every interleaving: the counter is the number of finished CPUs
and never passes `cpu_count`; no CPU faults on the shared descriptor; and once the boot
CPU has left its wait loop every CPU is finished, with its own number, lapic id and
stack in `cpu_locals` and its own segment loaded. -/
theorem smp_startup_loses_no_cpu (t : SmpTag) (s₀ s : Sys (Fin t.cpuCount) SmpShared SmpCpu)
    (hstart : SmpStart t s₀) (hrun : Sys.Run (smpAct t) s₀ s) :
    s.shared.mem.cpusOnline = (finished s).card ∧ s.shared.mem.cpusOnline ≤ t.cpuCount ∧
    (∀ c rest, (s.locals c).code = .tssLoad :: rest → (s.locals c).cpu.pc = .idle →
      SmpCmd.tssLoad.exec t s.shared.mem (s.locals c).regs ≠ none) ∧
    (.wait ∉ (s.locals t.bsp).code → ∀ c, (s.locals c).Finished ∧
      s.shared.mem.cpuLocals c = ⟨c, t.lapicId c, (s.shared.mem.smpInfo c).targetStack⟩ ∧
      (s.shared.mem.smpInfo c).targetStack = t.stackTop c ∧
      (s.locals c).regs.taskRegister = some (t.cpuLocals + 120 * c + 16)) := by
  have hinv : SmpInv s := hrun.induct (fun _ _ _ _ h hact => h.move hact) hstart.inv
  refine ⟨hinv.counted, ?_, ?_, ?_⟩
  · rw [hinv.counted]
    simpa using Finset.card_le_univ (finished s)
  · intro c rest hcode hpc
    obtain ⟨-, -, ⟨-, hgdt, hflags⟩, -⟩ :=
      ((hinv.ok.1 c).sound hcode hpc).2 _ (Seen.refl t c _ _)
    simp [SmpCmd.exec, hgdt, TssDescriptor.ltr, hflags]
  · intro hout c
    have hfin := hinv.waited hout c
    have hinit := (hinv.ok.1 c).initialised hfin
    refine ⟨hfin, ?_, hinit.entry.2, ?_⟩
    · rw [hinit.entry.2]
      exact hinit.data
    · rw [← t.tssAddr_eq c]
      exact hinit.segment

end StartUp

/-- The next move of CPU `c`, if it has one. -/
def smpNext (t : SmpTag) (c : Fin t.cpuCount) (x : SmpShared) (y : SmpCpu) :
    Option (SmpShared × SmpCpu) :=
  if y.cpu.pc = .idle then
    match y.code with
    | .acquire :: rest =>
      some (x, { y with cpu := { y.cpu with pc := .testAndSet () }, code := rest })
    | .release :: rest =>
      some (x, { y with cpu := { y.cpu with pc := .loadFlag () }, code := rest })
    | k :: rest => (k.exec t x.mem y.regs).map
        (fun r => ({ x with mem := r.1 }, { y with regs := r.2, code := rest }))
    | [] =>
      if y.started = false ∧ (x.mem.smpInfo c).gotoAddress = t.apInit then
        some (x, { y with started := true, code := apInit c })
      else none
  else (y.cpu.step x.locks).map (fun r => ({ x with locks := r.1 }, { y with cpu := r.2 }))

/-- The CPUs move in the order of the list. -/
def smpSchedule (t : SmpTag) (s : Sys (Fin t.cpuCount) SmpShared SmpCpu) :
    List (Fin t.cpuCount) → Option (Sys (Fin t.cpuCount) SmpShared SmpCpu)
  | [] => some s
  | c :: cs =>
    (smpNext t c s.shared (s.locals c)).bind (fun r => smpSchedule t (s.move c r.1 r.2) cs)

theorem smpNext_act {g g' : SmpShared} {a a' : SmpCpu} (h : smpNext t c g a = some (g', a')) :
    smpAct t c (g, a) (g', a') := by
  unfold smpNext at h
  by_cases hpc : a.cpu.pc = .idle
  · rw [if_pos hpc] at h
    split at h
    · rename_i rest hcode
      obtain ⟨rfl, rfl⟩ := Prod.mk.inj (Option.some.inj h)
      exact .acquire hcode (if_pos hpc)
    · rename_i rest hcode
      obtain ⟨rfl, rfl⟩ := Prod.mk.inj (Option.some.inj h)
      exact .release hcode (if_pos hpc)
    · rename_i k rest hacq hrel hcode
      obtain ⟨r, hexec, hr⟩ := Option.map_eq_some_iff.mp h
      obtain ⟨rfl, rfl⟩ := Prod.mk.inj hr
      exact .cmd hcode hpc ⟨hacq, hrel⟩ hexec
    · split_ifs at h with hstart
      obtain ⟨rfl, rfl⟩ := Prod.mk.inj (Option.some.inj h)
      exact .start hstart.1 hstart.2
  · rw [if_neg hpc] at h
    obtain ⟨r, hstep, hr⟩ := Option.map_eq_some_iff.mp h
    obtain ⟨rfl, rfl⟩ := Prod.mk.inj hr
    exact .spin hstep

theorem smpSchedule_run {s s' : Sys (Fin t.cpuCount) SmpShared SmpCpu}
    {cs : List (Fin t.cpuCount)} (h : smpSchedule t s cs = some s') : Sys.Run (smpAct t) s s' := by
  induction cs generalizing s with
  | nil =>
    obtain rfl := Option.some.inj h
    exact .refl
  | cons c cs ih =>
    obtain ⟨⟨x, y⟩, hnext, hrest⟩ := Option.bind_eq_some_iff.mp h
    exact .head ⟨c, x, y, smpNext_act hnext, rfl⟩ (ih hrest)

/-- Two CPUs, the first of which is the boot CPU. -/
def twoCpus : SmpTag where
  cpuCount := 2
  lapicId := fun i => i
  bspLapicId := 0
  bsp := 0
  cpuLocals := 0xFFFF900000010002
  stack := fun i => 0x20000 + 0x2000 * i
  apInit := 0xFFFFFFFF80001000
  count_lt := by decide
  distinct := fun _ _ _ _ h => h
  bsp_id := rfl
  locals_fit := by decide
  apInit_ne := by decide

def twoCpusStart : Sys (Fin twoCpus.cpuCount) SmpShared SmpCpu where
  shared := ⟨fun _ => ⟨false, false⟩, ⟨fun _ => ⟨0, 0, 0⟩, fun _ => ⟨0, 0, 0⟩,
    ⟨0, 0, 0, 0, 0, 0, 0, 0⟩, 0⟩⟩
  locals := fun c =>
    ⟨⟨.idle, [], true⟩, ⟨0, 0, 0, 0, c = twoCpus.bsp, none⟩, c = twoCpus.bsp,
    if c = twoCpus.bsp then smpInit twoCpus else []⟩

/-- The boot CPU makes its loop, the other one starts, and the boot CPU goes on. -/
def twoCpusOrder : List (Fin twoCpus.cpuCount) :=
  List.replicate 42 twoCpus.bsp ++ List.replicate 35 ⟨1, by decide⟩ ++ [twoCpus.bsp]

theorem smp_startup_loses_no_cpu_two : ∃ s, SmpStart twoCpus twoCpusStart ∧
    Sys.Run (smpAct twoCpus) twoCpusStart s ∧ .wait ∉ (s.locals twoCpus.bsp).code ∧
    ∀ c, (s.locals c).regs.taskRegister = some (0xFFFF900000010012 + 120 * c.val) := by
  have hstart : SmpStart twoCpus twoCpusStart := by
    refine ⟨rfl, fun _ => rfl, rfl, fun _ => ⟨rfl, rfl⟩, ⟨rfl, rfl, rfl⟩,
      fun c hc => ?_⟩
    exact ⟨decide_eq_false hc, if_neg hc⟩
  have hend : (smpSchedule twoCpus twoCpusStart twoCpusOrder).any
      (fun s => .wait ∉ (s.locals twoCpus.bsp).code) = true := by decide +kernel
  obtain ⟨s, hs, hout⟩ := (Option.any_eq_true ..).mp hend
  have hout : .wait ∉ (s.locals twoCpus.bsp).code := by simpa using hout
  have hrun := smpSchedule_run hs
  refine ⟨s, hstart, hrun, hout, fun c => ?_⟩
  have hfinal := (smp_startup_loses_no_cpu twoCpus twoCpusStart s hstart hrun).2.2.2 hout c
  rw [hfinal.2.2.2]
  exact congrArg some (Nat.add_right_comm ..)

end ApoptOS
