import ApoptOS.Libk.Spinlock
import ApoptOS.Memory.Mem
import ApoptOS.Tables.Gdt

namespace ApoptOS

open Framework

/-- The fields of `stivale2_smp_info` that the kernel writes. -/
structure SmpInfo where
  targetStack : Nat
  gotoAddress : Nat
  extraArgument : Nat
  deriving DecidableEq, Repr

/-- `cpu_local_t`, with the field of its task state segment that is set. -/
structure CpuLocal where
  cpuNumber : Nat
  lapicId : Nat
  rsp0 : Nat
  deriving DecidableEq, Repr

/-- The processors the bootloader found, and what the allocators return: the address
of `cpu_locals`, and the frames of the stack for each turn of the loop. -/
structure SmpTag where
  cpuCount : Nat
  lapicId : Nat → Nat
  bspLapicId : Nat
  bsp : Fin cpuCount
  cpuLocals : Nat
  stack : Nat → Nat
  apInit : Nat
  count_lt : cpuCount < 2 ^ 32
  distinct : ∀ i j, i < cpuCount → j < cpuCount → lapicId i = lapicId j → i = j
  bsp_id : lapicId bsp = bspLapicId
  locals_fit : cpuLocals + 120 * cpuCount ≤ 2 ^ 64
  apInit_ne : apInit ≠ 0

/-- `CPU_LOCALS_STACK_SIZE`. -/
def cpuLocalsStackSize : Nat := 8192

/-- The address of `cpu_locals[i].tss`: the structure has 120 bytes, 16 of them in
front of the segment. -/
def SmpTag.tssAddr (t : SmpTag) (i : Nat) : Nat := (t.cpuLocals + 120 * i + 16) % 2 ^ 64

def SmpTag.stackTop (t : SmpTag) (i : Nat) : Nat :=
  physToHigherHalfData (add64 (t.stack i) cpuLocalsStackSize)

/-- One access to memory or one instruction of `smp_init`, `ap_init` and the functions
they call; `e` is the index of the entry that `smp_entry` points to. `work` stands
for code that touches none of the data below. -/
inductive SmpCmd where
  | acquire
  | release
  | setArgument (i : Nat)
  | setStack (i : Nat)
  | setGoto (i : Nat)
  | loadArgument (e : Nat)
  | loadLapicId (e : Nat)
  | loadStack (e : Nat)
  | storeNumber
  | storeLapicId
  | storeStack
  | tssStore (f : TssField)
  | tssLoad
  | gdtLoad
  | loadOnline
  | storeOnline
  | wait
  | work
  deriving DecidableEq, Repr

def genericCpuLocalInit (e : Nat) : List SmpCmd :=
  [.loadArgument e, .loadLapicId e, .loadStack e, .storeNumber, .storeLapicId, .storeStack] ++
    (tssCreateSegment.map .tssStore ++ [.tssLoad, .work])

/-- `cpus_online++` after the line that is logged. -/
def cpuOnline : List SmpCmd := [.work, .loadOnline, .storeOnline]

def bspInit (e : Nat) : List SmpCmd := genericCpuLocalInit e ++ cpuOnline

/-- `enable_pat`, `vmm_load_page_table`, `gdt_load`, `idt_load`, the CPU's own data,
`lapic_enable`; interrupts are enabled after the lock is released. -/
def apInit (e : Nat) : List SmpCmd :=
  [.acquire, .work, .work, .gdtLoad, .work] ++ (genericCpuLocalInit e ++
    ([.work] ++ (cpuOnline ++ [.release, .work])))

/-- One turn of the loop in `smp_init`. -/
def smpInitTurn (t : SmpTag) (i : Nat) : List SmpCmd :=
  [.acquire, .setArgument i, .setStack i] ++
    ((if t.lapicId i = t.bspLapicId then bspInit i else [.setGoto i]) ++ [.release])

def smpInit (t : SmpTag) : List SmpCmd :=
  (List.range t.cpuCount).flatMap (smpInitTurn t) ++ [.wait, .work]

/-- What the CPUs share besides `smp_lock`. -/
structure SmpMemory where
  smpInfo : Nat → SmpInfo
  cpuLocals : Nat → CpuLocal
  tssDescriptor : TssDescriptor
  cpusOnline : Nat

/-- The variables of a CPU on its own stack, and its table and task registers. -/
structure SmpRegs where
  cpuNum : Nat
  lapicId : Nat
  stack : Nat
  online : Nat
  gdtLoaded : Bool
  taskRegister : Option Nat
  deriving DecidableEq, Repr

def SmpMemory.setInfo (x : SmpMemory) (i : Nat) (v : SmpInfo) : SmpMemory :=
  { x with smpInfo := Function.update x.smpInfo i v }

def SmpMemory.setLocal (x : SmpMemory) (i : Nat) (v : CpuLocal) : SmpMemory :=
  { x with cpuLocals := Function.update x.cpuLocals i v }

/-- What a command does; the lock functions are steps of their own. `none` where
the CPU does not get past it: `ltr` faults, or the counter has not arrived. -/
def SmpCmd.exec (t : SmpTag) (x : SmpMemory) (y : SmpRegs) :
    SmpCmd → Option (SmpMemory × SmpRegs)
  | .acquire | .release | .work => some (x, y)
  | .setArgument i => some (x.setInfo i { x.smpInfo i with extraArgument := i }, y)
  | .setStack i => some (x.setInfo i { x.smpInfo i with targetStack := t.stackTop i }, y)
  | .setGoto i => some (x.setInfo i { x.smpInfo i with gotoAddress := t.apInit }, y)
  | .loadArgument e => some (x, { y with cpuNum := (x.smpInfo e).extraArgument })
  | .loadLapicId e => some (x, { y with lapicId := t.lapicId e })
  | .loadStack e => some (x, { y with stack := (x.smpInfo e).targetStack })
  | .storeNumber => some (x.setLocal y.cpuNum
      { x.cpuLocals y.cpuNum with cpuNumber := y.cpuNum }, y)
  | .storeLapicId => some (x.setLocal y.cpuNum
      { x.cpuLocals y.cpuNum with lapicId := y.lapicId }, y)
  | .storeStack => some (x.setLocal y.cpuNum { x.cpuLocals y.cpuNum with rsp0 := y.stack }, y)
  | .tssStore f =>
    some ({ x with tssDescriptor := x.tssDescriptor.store (t.tssAddr y.cpuNum) f }, y)
  | .tssLoad =>
    if y.gdtLoaded then x.tssDescriptor.ltr.map (fun r =>
      ({ x with tssDescriptor := r.2 }, { y with taskRegister := some r.1 }))
    else none
  | .gdtLoad => some (x, { y with gdtLoaded := true })
  | .loadOnline => some (x, { y with online := x.cpusOnline })
  | .storeOnline => some ({ x with cpusOnline := (y.online + 1) % 2 ^ 32 }, y)
  | .wait => if x.cpusOnline = t.cpuCount then some (x, y) else none

structure SmpShared where
  locks : Unit → Spinlock
  mem : SmpMemory

/-- A CPU, with what is left of its function once it has started. -/
structure SmpCpu where
  cpu : Cpu Unit
  regs : SmpRegs
  started : Bool
  code : List SmpCmd

/-- What CPU `c` does: a step inside a spinlock function, its next command, or the
start of an AP, which spins in the bootloader until its `goto_address` is set. -/
inductive SmpMove (t : SmpTag) (c : Fin t.cpuCount) (x : SmpShared) (y : SmpCpu) :
    SmpShared × SmpCpu → Prop where
  | spin {locks : Unit → Spinlock} {cpu : Cpu Unit} (h : y.cpu.step x.locks = some (locks, cpu)) :
      SmpMove t c x y ({ x with locks := locks }, { y with cpu := cpu })
  | acquire {rest : List SmpCmd} {cpu : Cpu Unit} (hcode : y.code = .acquire :: rest)
      (h : y.cpu.exec x.locks (.acquire ()) = some (x.locks, cpu)) :
      SmpMove t c x y (x, { y with cpu := cpu, code := rest })
  | release {rest : List SmpCmd} {cpu : Cpu Unit} (hcode : y.code = .release :: rest)
      (h : y.cpu.exec x.locks (.release ()) = some (x.locks, cpu)) :
      SmpMove t c x y (x, { y with cpu := cpu, code := rest })
  | cmd {k : SmpCmd} {rest : List SmpCmd} {mem : SmpMemory} {regs : SmpRegs}
      (hcode : y.code = k :: rest) (hpc : y.cpu.pc = .idle) (hk : k ≠ .acquire ∧ k ≠ .release)
      (h : k.exec t x.mem y.regs = some (mem, regs)) :
      SmpMove t c x y ({ x with mem := mem }, { y with regs := regs, code := rest })
  | start (hwait : y.started = false) (hgoto : (x.mem.smpInfo c).gotoAddress = t.apInit) :
      SmpMove t c x y (x, { y with started := true, code := apInit c })

def smpAct (t : SmpTag) (c : Fin t.cpuCount) (before after : SmpShared × SmpCpu) : Prop :=
  SmpMove t c before.1 before.2 after

/-- Before `smp_init`: the lock is free, no `goto_address` is set, no CPU is counted,
and only the boot CPU runs. -/
structure SmpStart (t : SmpTag) (s : Sys (Fin t.cpuCount) SmpShared SmpCpu) : Prop where
  lock : (s.shared.locks ()).lock = false
  goto : ∀ i, (s.shared.mem.smpInfo i).gotoAddress = 0
  online : s.shared.mem.cpusOnline = 0
  idle : ∀ c, (s.locals c).cpu.Outside
  boot : (s.locals t.bsp).started = true ∧ (s.locals t.bsp).code = smpInit t ∧
    (s.locals t.bsp).regs.gdtLoaded = true
  aps : ∀ c, c ≠ t.bsp → (s.locals c).started = false ∧ (s.locals c).code = []

/-- The CPU has made all of its initialisation: the increment of the counter is
behind it. -/
def SmpCpu.Finished (y : SmpCpu) : Prop := y.started = true ∧ .storeOnline ∉ y.code

instance (y : SmpCpu) : Decidable y.Finished := inferInstanceAs (Decidable (_ ∧ _))

end ApoptOS
