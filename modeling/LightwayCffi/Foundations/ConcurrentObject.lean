import Mathlib.Data.List.Basic
import Mathlib.Logic.Function.Basic
import Mathlib.Logic.Relation
import Mathlib.Tactic.Common

/-!
# Concurrent objects

An object whose operations are called by any number of threads. A call runs through program
counters; between two of them it reads and writes the shared state in one atomic step, or it is
blocked. A run interleaves the steps of the threads in any order.

The run keeps a log of what happened: calls, returns, and the notes that the steps leave. A return
carries the position of its call in the log, so statements about real time ("a call that starts
after this one has returned") are statements about positions.

Proofs are by proof outlines: `G` is an invariant of the shared state and the log, and `P` attaches
an assertion to what each thread is doing. `Outline` asks that a thread keeps both, and that no
thread breaks the assertion of another one; `Outline.run` carries them along every run. The log
itself is understood once for all objects (`Reachable.wellFormed`).
-/

namespace ConcurrentObject

/-- An entry of the log, by the thread that made it. -/
inductive Event (Call Note Result : Type*) where
  | called (call : Call)
  | noted (note : Note)
  | returned (started : ℕ) (call : Call) (result : Result)
  deriving DecidableEq

structure Entry (T Call Note Result : Type*) where
  thread : T
  event : Event Call Note Result
  deriving DecidableEq

/-- Where a step leaves the call: at another program counter, or with its result. -/
inductive Move (Pc Result : Type*) where
  | goto (pc : Pc)
  | ret (result : Result)
  deriving DecidableEq

/-- What a thread is doing. A running call knows the position in the log at which it started. -/
inductive Activity (Call Pc : Type*) where
  | idle
  | running (started : ℕ) (call : Call) (pc : Pc)
  deriving DecidableEq

/-- The operations of an object, step by step: the shared state after the step, where it leaves the
call, and its notes. A step is `none` where the call is blocked. -/
structure Object (T S Call Pc Note Result : Type*) where
  entry : Call → Pc
  step : T → Call → S → Pc → Option (S × Move Pc Result × List Note)

/-- The shared state, what each thread is doing, and the log, oldest entry first. -/
structure Config (T S Call Pc Note Result : Type*) where
  shared : S
  threads : T → Activity Call Pc
  log : List (Entry T Call Note Result)

variable {T S Call Pc Note Result : Type*}

/-- The notes of a log, oldest first. -/
def notes (log : List (Entry T Call Note Result)) : List Note :=
  log.filterMap fun e => match e.event with
    | .noted note => some note
    | _ => none

/-- The entries for the notes of one step. -/
def noteEntries (t : T) (ns : List Note) : List (Entry T Call Note Result) :=
  ns.map fun note => ⟨t, .noted note⟩

/-- One step of the thread `t`: on the shared state, on the log, and on what the thread is doing. -/
inductive Turn (O : Object T S Call Pc Note Result) (t : T) :
    S → List (Entry T Call Note Result) → Activity Call Pc →
      S → List (Entry T Call Note Result) → Activity Call Pc → Prop
  | call (s : S) (log : List (Entry T Call Note Result)) (c : Call) :
    Turn O t s log .idle s (log ++ [⟨t, .called c⟩]) (.running log.length c (O.entry c))
  | goto {s s' : S} {log : List (Entry T Call Note Result)} {started : ℕ} {c : Call} {pc pc' : Pc}
    {ns : List Note} (h : O.step t c s pc = some (s', .goto pc', ns)) :
    Turn O t s log (.running started c pc) s' (log ++ noteEntries t ns) (.running started c pc')
  | ret {s s' : S} {log : List (Entry T Call Note Result)} {started : ℕ} {c : Call} {pc : Pc}
    {r : Result} {ns : List Note} (h : O.step t c s pc = some (s', .ret r, ns)) :
    Turn O t s log (.running started c pc) s'
      (log ++ noteEntries t ns ++ [⟨t, .returned started c r⟩]) .idle

/-! ## The log -/

section Log

variable {O : Object T S Call Pc Note Result} {t : T} {s s' : S}
  {log log' : List (Entry T Call Note Result)} {a a' : Activity Call Pc}

theorem notes_append (log log' : List (Entry T Call Note Result)) :
    notes (log ++ log') = notes log ++ notes log' :=
  List.filterMap_append

@[simp] theorem notes_noteEntries (t : T) (ns : List Note) :
    notes (noteEntries t ns : List (Entry T Call Note Result)) = ns := by
  induction ns with
  | nil => rfl
  | cons n ns ih => exact congrArg (n :: ·) ih

@[simp] theorem notes_called (t : T) (c : Call) :
    notes [(⟨t, .called c⟩ : Entry T Call Note Result)] = [] := rfl

@[simp] theorem notes_returned (t : T) (started : ℕ) (c : Call) (r : Result) :
    notes [(⟨t, .returned started c r⟩ : Entry T Call Note Result)] = [] := rfl

/-- A turn adds entries of its own thread to the log. -/
theorem Turn.log_eq (h : Turn O t s log a s' log' a') :
    ∃ fresh : List (Entry T Call Note Result), log' = log ++ fresh ∧ ∀ e ∈ fresh, e.thread = t := by
  have hnotes : ∀ ns : List Note, ∀ e ∈ (noteEntries t ns : List (Entry T Call Note Result)),
      e.thread = t := by
    intro ns e he
    obtain ⟨n, -, rfl⟩ := List.mem_map.1 he
    rfl
  cases h with
  | call _ c => exact ⟨[⟨t, .called c⟩], rfl, by simp⟩
  | goto h => exact ⟨_, rfl, hnotes _⟩
  | @ret _ _ started c pc r ns h =>
    refine ⟨noteEntries t ns ++ [⟨t, .returned started c r⟩], List.append_assoc _ _ _, ?_⟩
    intro e he
    rcases List.mem_append.1 he with he | he
    · exact hnotes ns e he
    · rw [List.mem_singleton.1 he]

/-- The entries of another thread are those that were there before. -/
theorem Turn.getElem?_of_ne (h : Turn O t s log a s' log' a') {i : ℕ}
    {e : Entry T Call Note Result} (hi : log'[i]? = some e) (hne : e.thread ≠ t) :
    log[i]? = some e := by
  obtain ⟨fresh, rfl, hfresh⟩ := h.log_eq
  rcases Nat.lt_or_ge i log.length with hlt | hge
  · rwa [List.getElem?_append_left hlt] at hi
  · rw [List.getElem?_append_right hge] at hi
    exact absurd (hfresh e (List.mem_of_getElem? hi)) hne

/-- What was in the log stays there. -/
theorem Turn.getElem?_mono (h : Turn O t s log a s' log' a') {i : ℕ}
    {e : Entry T Call Note Result} (hi : log[i]? = some e) : log'[i]? = some e := by
  obtain ⟨fresh, rfl, -⟩ := h.log_eq
  rw [List.getElem?_append_left (List.getElem?_eq_some_iff.1 hi).1, hi]

end Log

/-! ## Well-formed logs -/

/-- Every return has its call, and in between its thread has only left notes. -/
def WellFormed (log : List (Entry T Call Note Result)) : Prop :=
  ∀ ⦃j : ℕ⦄ ⦃t : T⦄ ⦃started : ℕ⦄ ⦃c : Call⦄ ⦃r : Result⦄,
    log[j]? = some ⟨t, .returned started c r⟩ →
      started < j ∧ log[started]? = some ⟨t, .called c⟩ ∧
        ∀ i e, started < i → i < j → log[i]? = some e → e.thread = t → ∃ n, e.event = .noted n

/-- A running call is in the log, and since then its thread has only left notes. -/
def InLog (t : T) (log : List (Entry T Call Note Result)) : Activity Call Pc → Prop
  | .idle => True
  | .running started c _ => log[started]? = some ⟨t, .called c⟩ ∧
      ∀ i e, started < i → log[i]? = some e → e.thread = t → ∃ n, e.event = .noted n

theorem InLog.append_notes {t : T} {log : List (Entry T Call Note Result)} {started : ℕ} {c : Call}
    {pc pc' : Pc} (h : InLog t log (.running started c pc)) (ns : List Note) :
    InLog t (log ++ noteEntries t ns) (.running started c pc') := by
  obtain ⟨hcall, hafter⟩ := h
  have hlt := (List.getElem?_eq_some_iff.1 hcall).1
  refine ⟨by rw [List.getElem?_append_left hlt, hcall], fun i e hi he het => ?_⟩
  rcases Nat.lt_or_ge i log.length with hold | hnew
  · rw [List.getElem?_append_left hold] at he
    exact hafter i e hi he het
  · rw [List.getElem?_append_right hnew] at he
    obtain ⟨n, -, rfl⟩ := List.mem_map.1 (List.mem_of_getElem? he)
    exact ⟨n, rfl⟩

/-- Entries that are not returns keep a log well formed. -/
theorem WellFormed.append {log fresh : List (Entry T Call Note Result)} (h : WellFormed log)
    (hfresh : ∀ t started c r, (⟨t, .returned started c r⟩ : Entry T Call Note Result) ∉ fresh) :
    WellFormed (log ++ fresh) := by
  intro j t started c r hj
  rcases Nat.lt_or_ge j log.length with hlt | hge
  · rw [List.getElem?_append_left hlt] at hj
    obtain ⟨hsj, hcall, hbetween⟩ := h hj
    refine ⟨hsj, by rw [List.getElem?_append_left (by omega), hcall], fun i e hi hij he => ?_⟩
    rw [List.getElem?_append_left (by omega)] at he
    exact hbetween i e hi hij he
  · rw [List.getElem?_append_right hge] at hj
    exact absurd (List.mem_of_getElem? hj) (hfresh t started c r)

/-- A return closes its call. -/
theorem WellFormed.append_returned {t : T} {log : List (Entry T Call Note Result)} {started : ℕ}
    {c : Call} {pc : Pc} (h : WellFormed log) (hrunning : InLog t log (.running started c pc))
    (r : Result) : WellFormed (log ++ [⟨t, .returned started c r⟩]) := by
  obtain ⟨hcall, hafter⟩ := hrunning
  have hlt := (List.getElem?_eq_some_iff.1 hcall).1
  intro j t' started' c' r' hj
  rcases Nat.lt_or_ge j log.length with hold | hnew
  · rw [List.getElem?_append_left hold] at hj
    obtain ⟨hsj, hcall', hbetween⟩ := h hj
    refine ⟨hsj, by rw [List.getElem?_append_left (by omega), hcall'], fun i e hi hij he => ?_⟩
    rw [List.getElem?_append_left (by omega)] at he
    exact hbetween i e hi hij he
  · obtain rfl : j = log.length := by
      have := (List.getElem?_eq_some_iff.1 hj).1
      simp at this
      omega
    simp only [List.getElem?_concat_length, Option.some.injEq, Entry.mk.injEq,
      Event.returned.injEq] at hj
    obtain ⟨rfl, rfl, rfl, -⟩ := hj
    refine ⟨hlt, by rw [List.getElem?_append_left hlt, hcall], fun i e hi hij he => ?_⟩
    rw [List.getElem?_append_left hij] at he
    exact hafter i e hi he

/-- Two different returns belong to different calls. -/
theorem WellFormed.started_ne {log : List (Entry T Call Note Result)} (h : WellFormed log)
    {i j : ℕ} {t t' : T} {started started' : ℕ} {c c' : Call} {r r' : Result}
    (hi : log[i]? = some ⟨t, .returned started c r⟩)
    (hj : log[j]? = some ⟨t', .returned started' c' r'⟩) (hij : i < j) : started ≠ started' := by
  intro heq
  obtain ⟨hsi, hcall, -⟩ := h hi
  obtain ⟨-, hcall', hbetween⟩ := h hj
  obtain rfl : t = t' := by
    rw [heq, hcall'] at hcall
    exact (Entry.mk.inj (Option.some.inj hcall)).1.symm
  obtain ⟨n, hn⟩ := hbetween i _ (heq ▸ hsi) hij hi rfl
  simp at hn

/-! ## Runs -/

variable [DecidableEq T]

/-- One step of a run: the turn of some thread. -/
inductive Step (O : Object T S Call Pc Note Result) :
    Config T S Call Pc Note Result → Config T S Call Pc Note Result → Prop
  | turn {c : Config T S Call Pc Note Result} (t : T) {s' : S}
    {log' : List (Entry T Call Note Result)} {a' : Activity Call Pc}
    (h : Turn O t c.shared c.log (c.threads t) s' log' a') :
    Step O c ⟨s', Function.update c.threads t a', log'⟩

/-- All threads are idle and nothing has happened yet. -/
def Config.init (s : S) : Config T S Call Pc Note Result := ⟨s, fun _ => .idle, []⟩

/-- A configuration that some run from `s` leads to. -/
def Reachable (O : Object T S Call Pc Note Result) (s : S) (c : Config T S Call Pc Note Result) :
    Prop :=
  Relation.ReflTransGen (Step O) (Config.init s) c

/-! ## Proof outlines -/

/-- A proof outline: each turn keeps the invariant `G` and the thread's own assertion `P`, and does
not break the assertion of another thread. -/
structure Outline (O : Object T S Call Pc Note Result)
    (G : S → List (Entry T Call Note Result) → Prop)
    (P : T → S → List (Entry T Call Note Result) → Activity Call Pc → Prop) : Prop where
  own : ∀ {t s log a s' log' a'}, Turn O t s log a s' log' a' → G s log → P t s log a →
    G s' log' ∧ P t s' log' a'
  others : ∀ {t s log a s' log' a'}, Turn O t s log a s' log' a' → G s log → P t s log a →
    ∀ {u b}, u ≠ t → P u s log b → P u s' log' b

variable {O : Object T S Call Pc Note Result} {G : S → List (Entry T Call Note Result) → Prop}
  {P : T → S → List (Entry T Call Note Result) → Activity Call Pc → Prop}

/-- One step keeps the outline. -/
theorem Outline.step (h : Outline O G P) {c c' : Config T S Call Pc Note Result}
    (hstep : Step O c c') (hc : G c.shared c.log ∧ ∀ t, P t c.shared c.log (c.threads t)) :
    G c'.shared c'.log ∧ ∀ t, P t c'.shared c'.log (c'.threads t) := by
  obtain ⟨t, hturn⟩ := hstep
  obtain ⟨hG, hP⟩ := hc
  obtain ⟨hG', hown⟩ := h.own hturn hG (hP t)
  refine ⟨hG', fun u => ?_⟩
  rcases eq_or_ne u t with rfl | hne
  · simpa using hown
  · simpa [Function.update_of_ne hne] using h.others hturn hG (hP t) hne (hP u)

/-- **A proof outline holds along every run.** -/
theorem Outline.run (h : Outline O G P) {s : S} {c : Config T S Call Pc Note Result}
    (hreach : Reachable O s c) (hG : G s []) (hP : ∀ t, P t s [] .idle) :
    G c.shared c.log ∧ ∀ t, P t c.shared c.log (c.threads t) := by
  induction hreach with
  | refl => exact ⟨hG, hP⟩
  | tail _ hstep ih => exact h.step hstep ih

/-- What a call does by itself holds of it in every run, whatever the others do. -/
theorem Reachable.local {s : S} {c : Config T S Call Pc Note Result} (h : Reachable O s c)
    {Q : Call → Pc → Prop} (hentry : ∀ call, Q call (O.entry call))
    (hstep : ∀ {t call s pc s' pc' ns}, O.step t call s pc = some (s', .goto pc', ns) →
      Q call pc → Q call pc') {t : T} {started : ℕ} {call : Call} {pc : Pc}
    (hrunning : c.threads t = .running started call pc) : Q call pc := by
  have houtline : Outline O (fun _ _ => True) fun _ _ _ a =>
      ∀ started call pc, a = .running started call pc → Q call pc := by
    refine ⟨fun h _ hP => ⟨trivial, ?_⟩, fun _ _ _ _ _ _ hb => hb⟩
    cases h with
    | call _ call =>
      rintro _ _ _ ⟨⟩
      exact hentry call
    | goto h =>
      rintro _ _ _ ⟨⟩
      exact hstep h (hP _ _ _ rfl)
    | ret h => exact fun _ _ _ h => nomatch h
  exact (houtline.run h trivial fun _ _ _ _ h => nomatch h).2 t started call pc hrunning

/-! ## A call that runs alone -/

/-- The call `c` of `t`, from the place `pc` to its return, with no other step in between. -/
inductive Solo (O : Object T S Call Pc Note Result) (t : T) (c : Call) :
    S → Pc → S → Result → List Note → Prop
  | ret {s s' : S} {pc : Pc} {r : Result} {ns : List Note}
    (h : O.step t c s pc = some (s', .ret r, ns)) : Solo O t c s pc s' r ns
  | goto {s s₁ s' : S} {pc pc₁ : Pc} {r : Result} {ns ns' : List Note}
    (h : O.step t c s pc = some (s₁, .goto pc₁, ns)) (rest : Solo O t c s₁ pc₁ s' r ns') :
    Solo O t c s pc s' r (ns ++ ns')

omit [DecidableEq T] in
/-- A step without a note. -/
theorem Solo.move {t : T} {c : Call} {s s₁ s' : S} {pc pc₁ : Pc} {r : Result} {ns : List Note}
    (h : O.step t c s pc = some (s₁, .goto pc₁, [])) (rest : Solo O t c s₁ pc₁ s' r ns) :
    Solo O t c s pc s' r ns :=
  .goto h rest

omit [DecidableEq T] in
/-- A step with one note. -/
theorem Solo.note {t : T} {c : Call} {s s₁ s' : S} {pc pc₁ : Pc} {r : Result} {n : Note}
    {ns : List Note} (h : O.step t c s pc = some (s₁, .goto pc₁, [n]))
    (rest : Solo O t c s₁ pc₁ s' r ns) : Solo O t c s pc s' r (n :: ns) :=
  .goto h rest

/-- The rest of a call that runs alone is part of a run. -/
theorem Solo.steps {t : T} {call : Call} {s s' : S} {pc : Pc} {r : Result} {ns : List Note}
    (h : Solo O t call s pc s' r ns) {started : ℕ} {threads : T → Activity Call Pc}
    (ht : threads t = .running started call pc) (log : List (Entry T Call Note Result)) :
    Relation.ReflTransGen (Step O) ⟨s, threads, log⟩ ⟨s', Function.update threads t .idle,
      log ++ noteEntries t ns ++ [⟨t, .returned started call r⟩]⟩ := by
  induction h generalizing threads log with
  | ret h =>
    refine .single (.turn t ?_)
    change Turn O t _ log (threads t) _ _ _
    rw [ht]
    exact .ret h
  | @goto s s₁ s' pc pc₁ r ns ns' h _ ih =>
    have hfirst : Step O ⟨s, threads, log⟩
        ⟨s₁, Function.update threads t (.running started call pc₁), log ++ noteEntries t ns⟩ := by
      refine .turn t ?_
      change Turn O t _ log (threads t) _ _ _
      rw [ht]
      exact .goto h
    have hrest := ih (Function.update_self t (Activity.running started call pc₁) threads)
      (log ++ noteEntries t ns)
    rw [Function.update_idem] at hrest
    have hlog : log ++ noteEntries t (ns ++ ns') =
        log ++ noteEntries t ns ++ (noteEntries t ns' : List (Entry T Call Note Result)) := by
      simp [noteEntries]
    rw [hlog]
    exact .head hfirst hrest

/-- A run goes on with a call that runs alone. -/
theorem Reachable.solo {s₀ s' : S} {c : Config T S Call Pc Note Result}
    (h : Reachable O s₀ c) {t : T}
    (hidle : c.threads t = .idle) {call : Call} {r : Result} {ns : List Note}
    (hsolo : Solo O t call c.shared (O.entry call) s' r ns) :
    Reachable O s₀ ⟨s', c.threads, c.log ++ [⟨t, .called call⟩] ++ noteEntries t ns ++
      [⟨t, .returned c.log.length call r⟩]⟩ := by
  have hcall : Step O c ⟨c.shared,
      Function.update c.threads t (.running c.log.length call (O.entry call)),
      c.log ++ [⟨t, .called call⟩]⟩ := by
    refine .turn t ?_
    rw [hidle]
    exact .call _ _ _
  have hrest := hsolo.steps
    (Function.update_self t (Activity.running c.log.length call (O.entry call)) c.threads)
    (c.log ++ [⟨t, .called call⟩])
  rw [Function.update_idem, ← hidle, Function.update_eq_self] at hrest
  exact (h.tail hcall).trans hrest

/-! ## The log of a run -/

omit [DecidableEq T] in
theorem outline_wellFormed (O : Object T S Call Pc Note Result) :
    Outline O (fun _ log => WellFormed log) fun t _ log a => InLog t log a where
  own {t s log a s' log' a'} h hG hP := by
    cases h with
    | call _ c =>
      refine ⟨hG.append (by simp), by simp, fun i e hi he => ?_⟩
      have := (List.getElem?_eq_some_iff.1 he).1
      simp at this
      omega
    | goto h =>
      refine ⟨hG.append fun t started c r hmem => ?_, hP.append_notes _⟩
      obtain ⟨n, -, hn⟩ := List.mem_map.1 hmem
      simp at hn
    | @ret _ _ started c pc r ns h =>
      have hnotes : WellFormed (log ++ noteEntries t ns) := hG.append fun t started c r hmem => by
        obtain ⟨n, -, hn⟩ := List.mem_map.1 hmem
        simp at hn
      have hrunning : InLog t (log ++ noteEntries t ns) (.running started c pc) :=
        hP.append_notes ns
      exact ⟨hnotes.append_returned hrunning r, trivial⟩
  others h _ _ u b hne hb := by
    cases b with
    | idle => trivial
    | running started c pc =>
      refine ⟨h.getElem?_mono hb.1, fun i e hi he het => ?_⟩
      exact hb.2 i e hi (h.getElem?_of_ne he (het ▸ hne)) het

/-- **The log of every run is well formed.** -/
theorem Reachable.wellFormed {s : S} {c : Config T S Call Pc Note Result} (h : Reachable O s c) :
    WellFormed c.log :=
  ((outline_wellFormed O).run h (fun _ _ _ _ _ h => absurd h (by simp)) fun _ => trivial).1

/-- A call that is running is in the log. -/
theorem Reachable.inLog {s : S} {c : Config T S Call Pc Note Result} (h : Reachable O s c) (t : T) :
    InLog t c.log (c.threads t) :=
  ((outline_wellFormed O).run h (fun _ _ _ _ _ h => absurd h (by simp)) fun _ => trivial).2 t

end ConcurrentObject
