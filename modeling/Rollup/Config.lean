import Rollup.Ident

/-!
How many per-CPU slots a hierarchy has. The number asked for is kept as given; the arrays it
sizes always have at least one slot.
-/
namespace Rollup

def maxCpus : Nat := 8192

structure Config where
  cpus : Nat
  deriving DecidableEq, Repr

namespace Config

def clamped (cpus : Nat) : Config := ⟨max 1 (min cpus maxCpus)⟩

def slots (cfg : Config) : Nat := max cfg.cpus 1

theorem slots_positive (cfg : Config) : 0 < cfg.slots := by
  simp only [slots]
  omega

def slot (cfg : Config) (cpu : Cpu) : Fin cfg.slots := cpu.slot cfg.slots_positive

theorem slots_clamped (cpus : Nat) : (clamped cpus).slots = (clamped cpus).cpus := by
  simp only [slots, clamped]
  omega

end Config

end Rollup
