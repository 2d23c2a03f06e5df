/-! Sleepers and the units they wait for, as counts. A caller that finds no free unit goes
to sleep; every release of a unit owes one notice, and a notice wakes one sleeper if there
is any. The question is when a sleeper may be left beside a free unit for good. -/
namespace Wakeup

structure Tally where
  blocked : Nat
  woken : Nat
  notices : Nat
  free : Nat

/-- What callers that do not give up, and releases, do to the counts. -/
inductive Step (t u : Tally) : Prop where
  | stay : u = t → Step t u
  | sleep : t.free = 0 → u.free = 0 → u.blocked = t.blocked + 1 → u.woken = t.woken →
      u.notices = t.notices → Step t u
  | sleepAgain : t.free = 0 → u.free = 0 → u.blocked = t.blocked + 1 → u.woken + 1 = t.woken →
      u.notices = t.notices → Step t u
  | use : u.free + 1 = t.free → u.blocked = t.blocked → u.woken = t.woken →
      u.notices = t.notices → Step t u
  | useWoken : u.free + 1 = t.free → u.blocked = t.blocked → u.woken + 1 = t.woken →
      u.notices = t.notices → Step t u
  | release : u.free = t.free + 1 → u.blocked = t.blocked → u.woken = t.woken →
      u.notices = t.notices + 1 → Step t u
  | wake : u.free = t.free → u.blocked + 1 = t.blocked → u.woken = t.woken + 1 →
      u.notices + 1 = t.notices → Step t u
  | waste : u.free = t.free → t.blocked = 0 → u.blocked = 0 → u.woken = t.woken →
      u.notices + 1 = t.notices → Step t u
  | spurious : u.free = t.free → u.blocked + 1 = t.blocked → u.woken = t.woken + 1 →
      u.notices = t.notices → Step t u

/-- A woken caller gives up: the notice that woke it is spent and no unit is used. -/
structure Abandon (t u : Tally) : Prop where
  free : u.free = t.free
  blocked : u.blocked = t.blocked
  woken : u.woken + 1 = t.woken
  notices : u.notices = t.notices

/-- A sleeper beside a free unit, and nobody on the way. -/
structure Stuck (t : Tally) : Prop where
  blocked : 0 < t.blocked
  free : 0 < t.free
  woken : t.woken = 0
  notices : t.notices = 0

/-- While anybody sleeps, each free unit has a caller or a notice on its way. -/
def Covered (t : Tally) : Prop := 0 < t.blocked → t.free ≤ t.woken + t.notices

def Served (t : Tally) : Prop := t.blocked ≤ t.notices ∨ t.free ≤ t.woken + t.notices

/-- The steps still due once nobody arrives: each notice, and then each woken caller. -/
def due (t : Tally) : Nat := 2 * t.notices + t.woken

theorem Step.covered {t u : Tally} (step : Step t u) (covered : Covered t) : Covered u := by
  cases step with
  | stay same => exact same ▸ covered
  | _ =>
    unfold Covered at covered ⊢
    omega

theorem Step.served {t u : Tally} (step : Step t u) (served : Served t) : Served u := by
  cases step with
  | stay same => exact same ▸ served
  | _ =>
    unfold Served at served ⊢
    omega

theorem Abandon.served_iff {t u : Tally} (step : Abandon t u) :
    Served u ↔ t.blocked ≤ t.notices ∨ t.free + 1 ≤ t.woken + t.notices := by
  have ⟨free, blocked, woken, notices⟩ := step
  unfold Served
  omega

theorem Covered.not_stuck {t : Tally} (covered : Covered t) : ¬ Stuck t := by
  rintro ⟨blocked, free, woken, notices⟩
  have := covered blocked
  omega

theorem Served.not_stuck {t : Tally} (served : Served t) : ¬ Stuck t := by
  rintro ⟨blocked, free, woken, notices⟩
  unfold Served at served
  omega

end Wakeup
