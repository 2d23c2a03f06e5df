import Mathlib.Data.List.Basic

/-! Runs of a labelled, executable step function. A policy tells which labels a
client or a scheduler may choose in which state; it is a hypothesis on the run
and never a part of the step function. -/
namespace Transition

variable {S T L A : Type*} {step : S → L → Option S} {allowed : S → L → Prop}

def exec (step : S → L → Option S) : S → List L → Option S
  | s, [] => some s
  | s, l :: ls => (step s l).bind (fun t => exec step t ls)

/-- The condition holds of every step taken, in the state the step starts from. -/
def Along (step : S → L → Option S) (P : S → L → Prop) : S → List L → Prop
  | _, [] => True
  | s, l :: ls => P s l ∧ match step s l with
    | none => True
    | some t => Along step P t ls

/-- The labels `ls` lead from `s` to `t`, and the policy admits each of them. -/
structure Run (step : S → L → Option S) (allowed : S → L → Prop) (s : S) (ls : List L)
    (t : S) : Prop where
  ends : exec step s ls = some t
  obeys : Along step allowed s ls

instance decidableAlong [∀ s l, Decidable (allowed s l)] :
    ∀ s ls, Decidable (Along step allowed s ls)
  | _, [] => isTrue trivial
  | s, l :: ls =>
    haveI : Decidable (match step s l with
        | none => True
        | some t => Along step allowed t ls) :=
      match step s l with
      | none => isTrue trivial
      | some t => decidableAlong t ls
    inferInstanceAs (Decidable (_ ∧ _))

theorem run_nil (s t : S) : Run step allowed s [] t ↔ s = t := by
  constructor
  · intro h
    exact Option.some.inj h.ends
  · rintro rfl
    exact ⟨rfl, trivial⟩

theorem run_cons (s t : S) (l : L) (ls : List L) :
    Run step allowed s (l :: ls) t ↔
      allowed s l ∧ ∃ u, step s l = some u ∧ Run step allowed u ls t := by
  constructor
  · rintro ⟨ends, admitted, rest⟩
    simp only [exec, Option.bind_eq_some_iff] at ends
    obtain ⟨u, hu, tail⟩ := ends
    rw [hu] at rest
    exact ⟨admitted, u, hu, tail, rest⟩
  · rintro ⟨admitted, u, hu, tail⟩
    refine ⟨?_, admitted, ?_⟩
    · simpa only [exec, hu, Option.bind_some] using tail.ends
    · rw [hu]
      exact tail.obeys

theorem Run.nil (s : S) : Run step allowed s [] s := (run_nil s s).mpr rfl

theorem Run.cons {s t u : S} {l : L} {ls : List L} (admitted : allowed s l)
    (moved : step s l = some u) (rest : Run step allowed u ls t) :
    Run step allowed s (l :: ls) t :=
  (run_cons s t l ls).mpr ⟨admitted, u, moved, rest⟩

theorem Run.invariant (I : S → Prop)
    (preserved : ∀ s l t, I s → allowed s l → step s l = some t → I t)
    {s t : S} {ls : List L} (initial : I s) (run : Run step allowed s ls t) : I t := by
  induction ls generalizing s with
  | nil => exact (run_nil s t).mp run ▸ initial
  | cons l ls ih =>
    obtain ⟨admitted, u, hu, rest⟩ := (run_cons s t l ls).mp run
    exact ih (preserved s l u initial admitted hu) rest

theorem Run.along (I : S → Prop) (P : S → L → Prop)
    (preserved : ∀ s l t, I s → allowed s l → step s l = some t → I t)
    (holds : ∀ s l t, I s → allowed s l → step s l = some t → P s l)
    {s t : S} {ls : List L} (initial : I s) (run : Run step allowed s ls t) :
    Along step P s ls := by
  induction ls generalizing s with
  | nil => trivial
  | cons l ls ih =>
    obtain ⟨admitted, u, hu, rest⟩ := (run_cons s t l ls).mp run
    refine ⟨holds s l u initial admitted hu, ?_⟩
    rw [hu]
    exact ih (preserved s l u initial admitted hu) rest

theorem along_append (P : S → L → Prop) (s : S) (ks ls : List L) :
    Along step P s (ks ++ ls) ↔
      Along step P s ks ∧ ∀ t, exec step s ks = some t → Along step P t ls := by
  induction ks generalizing s with
  | nil => simp [Along, exec]
  | cons k ks ih =>
    simp only [List.cons_append, Along, exec, and_assoc]
    cases h : step s k with
    | none => simp
    | some u => simp only [Option.bind_some, ih u]

theorem along_iff (I : S → Prop) (P Q : S → L → Prop)
    (preserved : ∀ s l t, I s → allowed s l → step s l = some t → I t)
    (same : ∀ s l, I s → allowed s l → (P s l ↔ Q s l)) {s : S} {ls : List L} (initial : I s)
    (admitted : Along step allowed s ls) : Along step P s ls ↔ Along step Q s ls := by
  induction ls generalizing s with
  | nil => exact Iff.rfl
  | cons l ls ih =>
    obtain ⟨now, later⟩ := admitted
    simp only [Along, same s l initial now]
    cases h : step s l with
    | none => exact Iff.rfl
    | some u =>
      rw [h] at later
      simp only [ih (preserved s l u initial now h) later]

/-- What a run decides once and for all: before the state is `Settled` every step meets `P`,
the step that settles it meets `P` exactly when it makes `Q` true, and afterwards `Q` no longer
changes. Then `Q` holds of a settled end exactly when every step met `P`. -/
theorem Run.decided (I Settled Q : S → Prop) (P : S → L → Prop)
    (preserved : ∀ s l t, I s → allowed s l → step s l = some t → I t)
    (waits : ∀ s l t, I s → allowed s l → step s l = some t → ¬ Settled t → P s l)
    (enters : ∀ s l t, I s → allowed s l → step s l = some t → ¬ Settled s → Settled t →
      (Q t ↔ P s l))
    (stays : ∀ s l t, I s → allowed s l → step s l = some t → Settled s →
      Settled t ∧ (Q t ↔ Q s) ∧ P s l)
    {s t : S} {ls : List L} (initial : I s) (run : Run step allowed s ls t)
    (settled : Settled t) :
    (Settled s → (Q t ↔ Q s) ∧ Along step P s ls) ∧
      (¬ Settled s → (Q t ↔ Along step P s ls)) := by
  induction ls generalizing s with
  | nil =>
    have eq := (run_nil s t).mp run
    subst eq
    exact ⟨fun _ => ⟨Iff.rfl, trivial⟩, fun open_ => absurd settled open_⟩
  | cons l ls ih =>
    obtain ⟨admitted, u, hu, rest⟩ := (run_cons s t l ls).mp run
    have tail := ih (preserved s l u initial admitted hu) rest
    constructor
    · intro before
      obtain ⟨after, same, met⟩ := stays s l u initial admitted hu before
      obtain ⟨kept, along⟩ := tail.1 after
      refine ⟨kept.trans same, met, ?_⟩
      rw [hu]
      exact along
    · intro before
      -- this step settles the run, or the rest of the run does
      by_cases after : Settled u
      · obtain ⟨kept, along⟩ := tail.1 after
        rw [kept, enters s l u initial admitted hu before after]
        simp only [Along, hu, along, and_true]
      · have met := waits s l u initial admitted hu after
        rw [tail.2 after]
        simp only [Along, hu, met, true_and]

/-- The actions a run performs, each computed from a label and the state it starts from. -/
def trace (step : S → L → Option S) (action : S → L → A) : S → List L → List A
  | _, [] => []
  | s, l :: ls => action s l :: match step s l with
    | none => []
    | some t => trace step action t ls

theorem Run.records {B : Type*} (action : S → L → A) (record : S → List B) (entry : A → List B)
    (I : S → Prop)
    (preserved : ∀ s l t, I s → allowed s l → step s l = some t → I t)
    (grows : ∀ s l t, I s → allowed s l → step s l = some t →
      record t = record s ++ entry (action s l))
    {s t : S} {ls : List L} (initial : I s) (run : Run step allowed s ls t) :
    record t = record s ++ (trace step action s ls).flatMap entry := by
  induction ls generalizing s with
  | nil =>
    have eq := (run_nil s t).mp run
    simp [trace, eq]
  | cons l ls ih =>
    obtain ⟨admitted, u, hu, rest⟩ := (run_cons s t l ls).mp run
    rw [ih (preserved s l u initial admitted hu) rest, grows s l u initial admitted hu]
    simp only [trace, hu, List.flatMap_cons, List.append_assoc]

/-- The spending rule: a budget that the steps counted lower, and no step raises, covers them. -/
theorem Run.spends (budget : S → Nat) (counted : L → Bool) (I : S → Prop)
    (preserved : ∀ s l t, I s → allowed s l → step s l = some t → I t)
    (pays : ∀ s l t, I s → allowed s l → step s l = some t → counted l = true →
      budget t < budget s)
    (keeps : ∀ s l t, I s → allowed s l → step s l = some t → counted l = false →
      budget t ≤ budget s)
    {s t : S} {ls : List L} (initial : I s) (run : Run step allowed s ls t) :
    budget t + ls.countP counted ≤ budget s := by
  induction ls generalizing s with
  | nil =>
    have eq := (run_nil s t).mp run
    simp [eq]
  | cons l ls ih =>
    obtain ⟨admitted, u, hu, rest⟩ := (run_cons s t l ls).mp run
    have later := ih (preserved s l u initial admitted hu) rest
    cases kind : counted l with
    | true =>
      have now := pays s l u initial admitted hu kind
      rw [List.countP_cons_of_pos kind]
      omega
    | false =>
      have now := keeps s l u initial admitted hu kind
      rw [List.countP_cons_of_neg (by simp [kind])]
      omega

theorem Run.of_exec {s : S} {ls : List L} (ends : (exec step s ls).isSome = true)
    (obeys : Along step allowed s ls) :
    Run step allowed s ls ((exec step s ls).get ends) :=
  ⟨(Option.some_get ends).symm, obeys⟩

inductive Path (R : T → A → T → Prop) : T → List A → T → Prop where
  | nil (t : T) : Path R t [] t
  | cons {t u v : T} {a : A} {as : List A} : R t a u → Path R u as v → Path R t (a :: as) v

/-- Forward simulation along an abstraction function: each concrete step is the
abstract step its action names, so each run is a path of the specification. -/
theorem Run.simulates (R : T → A → T → Prop) (abs : S → T) (action : S → L → A)
    (I : S → Prop)
    (preserved : ∀ s l t, I s → allowed s l → step s l = some t → I t)
    (simulated : ∀ s l t, I s → allowed s l → step s l = some t →
      R (abs s) (action s l) (abs t))
    {s t : S} {ls : List L} (initial : I s) (run : Run step allowed s ls t) :
    Path R (abs s) (trace step action s ls) (abs t) := by
  induction ls generalizing s with
  | nil => exact (run_nil s t).mp run ▸ Path.nil (abs s)
  | cons l ls ih =>
    obtain ⟨admitted, u, hu, rest⟩ := (run_cons s t l ls).mp run
    simp only [trace, hu]
    exact Path.cons (simulated s l u initial admitted hu)
      (ih (preserved s l u initial admitted hu) rest)

theorem Path.append {R : T → A → T → Prop} {t u v : T} {as bs : List A} (first : Path R t as u)
    (second : Path R u bs v) : Path R t (as ++ bs) v := by
  induction first with
  | nil t => exact second
  | cons now _ ih => exact Path.cons now (ih second)

theorem Run.performs (R : T → A → T → Prop) (abs : S → T) (actions : S → L → List A)
    (I : S → Prop)
    (preserved : ∀ s l t, I s → allowed s l → step s l = some t → I t)
    (performed : ∀ s l t, I s → allowed s l → step s l = some t →
      Path R (abs s) (actions s l) (abs t))
    {s t : S} {ls : List L} (initial : I s) (run : Run step allowed s ls t) :
    Path R (abs s) (trace step actions s ls).flatten (abs t) := by
  induction ls generalizing s with
  | nil => exact (run_nil s t).mp run ▸ Path.nil (abs s)
  | cons l ls ih =>
    obtain ⟨admitted, u, hu, rest⟩ := (run_cons s t l ls).mp run
    simp only [trace, hu, List.flatten_cons]
    exact (performed s l u initial admitted hu).append
      (ih (preserved s l u initial admitted hu) rest)

theorem Run.append {s t u : S} {ks ls : List L} (first : Run step allowed s ks t)
    (second : Run step allowed t ls u) : Run step allowed s (ks ++ ls) u := by
  induction ks generalizing s with
  | nil =>
    have eq := (run_nil s t).mp first
    exact eq ▸ second
  | cons k ks ih =>
    obtain ⟨admitted, v, moved, rest⟩ := (run_cons s t k ks).mp first
    exact Run.cons admitted moved (ih rest)

/-- Forward simulation between two machines: each step of the first is a run of the second
whose labels it tells, from related states to related states. -/
theorem Run.refines {U K : Type*} {step' : U → K → Option U} {allowed' : U → K → Prop}
    (R : S → U → Prop) (labels : S → L → List K)
    (simulated : ∀ s l t u, R s u → allowed s l → step s l = some t →
      ∃ v, Run step' allowed' u (labels s l) v ∧ R t v)
    {s t : S} {ls : List L} {u : U} (related : R s u) (run : Run step allowed s ls t) :
    ∃ v, Run step' allowed' u (trace step labels s ls).flatten v ∧ R t v := by
  induction ls generalizing s u with
  | nil =>
    have eq := (run_nil s t).mp run
    exact ⟨u, Run.nil u, eq ▸ related⟩
  | cons l ls ih =>
    obtain ⟨admitted, w, moved, rest⟩ := (run_cons s t l ls).mp run
    obtain ⟨x, now, still⟩ := simulated s l w u related admitted moved
    obtain ⟨v, later, ends⟩ := ih still rest
    refine ⟨v, ?_, ends⟩
    simp only [trace, moved, List.flatten_cons]
    exact now.append later

theorem Run.follows (R : T → A → T → Prop) (related : S → T → Prop) (actions : S → L → List A)
    (followed : ∀ s l t u, related s u → allowed s l → step s l = some t →
      ∃ v, Path R u (actions s l) v ∧ related t v)
    {s t : S} {ls : List L} {u : T} (initial : related s u) (run : Run step allowed s ls t) :
    ∃ v, Path R u (trace step actions s ls).flatten v ∧ related t v := by
  induction ls generalizing s u with
  | nil =>
    have eq := (run_nil s t).mp run
    exact ⟨u, .nil u, eq ▸ initial⟩
  | cons l ls ih =>
    obtain ⟨admitted, w, moved, rest⟩ := (run_cons s t l ls).mp run
    obtain ⟨x, now, still⟩ := followed s l w u initial admitted moved
    obtain ⟨v, later, ends⟩ := ih still rest
    refine ⟨v, ?_, ends⟩
    simp only [trace, moved, List.flatten_cons]
    exact now.append later

theorem Along.imp {P Q : S → L → Prop} (weaker : ∀ s l, P s l → Q s l) {s : S} {ls : List L}
    (along : Along step P s ls) : Along step Q s ls := by
  induction ls generalizing s with
  | nil => trivial
  | cons l ls ih =>
    obtain ⟨now, later⟩ := along
    refine ⟨weaker s l now, ?_⟩
    cases h : step s l with
    | none => trivial
    | some u =>
      rw [h] at later
      exact ih later

theorem Along.labels (Q : L → Prop) {s : S} {ls : List L} (admitted : Along step allowed s ls)
    (all : ∀ l ∈ ls, Q l) : Along step (fun s l => allowed s l ∧ Q l) s ls := by
  induction ls generalizing s with
  | nil => trivial
  | cons l ls ih =>
    obtain ⟨now, later⟩ := admitted
    refine ⟨⟨now, all l List.mem_cons_self⟩, ?_⟩
    cases h : step s l with
    | none => trivial
    | some u =>
      rw [h] at later
      exact ih later (fun k mem => all k (List.mem_cons_of_mem l mem))

section Lockstep

variable {U : Type*} {mirror : U → L → Option U}

theorem rel_cases {R : S → U → Prop} {x : Option S} {y : Option U} (h : Option.Rel R x y) :
    (x = none ∧ y = none) ∨ ∃ s u, x = some s ∧ y = some u ∧ R s u := by
  cases h with
  | none => exact .inl ⟨rfl, rfl⟩
  | some related => exact .inr ⟨_, _, rfl, rfl, related⟩

/-- The lockstep rule: two machines that take or refuse each admitted label together, from
related states to related states, take or refuse each admitted run together. -/
theorem lockstep (R : S → U → Prop)
    (matched : ∀ s u l, R s u → allowed s l → Option.Rel R (step s l) (mirror u l))
    {s : S} {u : U} {ls : List L} (related : R s u) (admitted : Along step allowed s ls) :
    Option.Rel R (exec step s ls) (exec mirror u ls) := by
  induction ls generalizing s u with
  | nil => exact .some related
  | cons l ls ih =>
    obtain ⟨now, later⟩ := admitted
    rcases rel_cases (matched s u l related now) with ⟨stuck, stuck'⟩ | ⟨t, w, moved, moved', still⟩
    · simp [exec, stuck, stuck']
    · rw [moved] at later
      simpa only [exec, moved, moved', Option.bind_some] using ih still later

theorem lockstep_trace (R : S → U → Prop) (action : S → L → A) (action' : U → L → A)
    (matched : ∀ s u l, R s u → allowed s l → Option.Rel R (step s l) (mirror u l))
    (same : ∀ s u l, R s u → action s l = action' u l)
    {s : S} {u : U} {ls : List L} (related : R s u) (admitted : Along step allowed s ls) :
    trace step action s ls = trace mirror action' u ls := by
  induction ls generalizing s u with
  | nil => rfl
  | cons l ls ih =>
    obtain ⟨now, later⟩ := admitted
    simp only [trace, same s u l related]
    rcases rel_cases (matched s u l related now) with ⟨stuck, stuck'⟩ | ⟨t, w, moved, moved', still⟩
    · rw [stuck, stuck']
    · rw [moved] at later
      rw [moved, moved']
      exact congrArg _ (ih still later)

end Lockstep

end Transition
