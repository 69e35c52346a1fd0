import KeyStore.Proofs.Run

/-! Runs step by step. Words and batches are taken apart into the commands they run, so that what
happens to an engine is one command, one call of a handle or one step of the clock at a time. -/
namespace KeyStore

def Batch.stepsFrom (nanos : Nat → Nat) : Nat → List (Except Error Command) → List Event
  | _, [] => []
  | i, .ok c :: cs => .execute c (nanos i) :: stepsFrom nanos (i + 1) cs
  | i, .error _ :: cs => stepsFrom nanos (i + 1) cs

namespace Event

/-- An event one command at a time. -/
def steps : Event → List Event
  | .call words nanos => Batch.stepsFrom (fun _ => nanos) 0 [Command.ofWords words]
  | .batch b nanos => Batch.stepsFrom nanos 0 b.queued.toList
  | ev => [ev]

/-- An event that is no more than one command, and one that was understood. -/
def IsStep : Event → Prop
  | .call _ _ => False
  | .batch _ _ => False
  | _ => True

/-- A step of an event is the event itself, or it runs a command. -/
theorem eq_or_execute_of_mem_steps {ev step : Event} (h : step ∈ ev.steps) :
    step = ev ∧ ev.IsStep ∨ ∃ c nanos, step = .execute c nanos := by
  have hfrom : ∀ (nanos : Nat → Nat) (cs : List (Except Error Command)) (i : Nat),
      step ∈ Batch.stepsFrom nanos i cs → ∃ c nanos, step = .execute c nanos := by
    intro nanos cs
    induction cs with
    | nil => exact fun i h => by cases h
    | cons c cs ih =>
      intro i h
      cases c with
      | error err => exact ih (i + 1) h
      | ok c =>
        rcases List.mem_cons.mp h with rfl | hrest
        · exact ⟨c, nanos i, rfl⟩
        · exact ih (i + 1) hrest
  cases ev with
  | call words nanos => exact .inr (hfrom _ _ 0 h)
  | batch b nanos => exact .inr (hfrom nanos _ 0 h)
  | _ => exact .inl ⟨List.mem_singleton.mp h, trivial⟩

end Event

def stepwise (evs : List Event) : List Event := evs.flatMap Event.steps

theorem elapsed_append (evs evs' : List Event) : elapsed (evs ++ evs') = elapsed evs + elapsed evs' := by
  induction evs with
  | nil => exact (Nat.zero_add _).symm
  | cons ev evs ih => rw [List.cons_append, elapsed, elapsed, ih, Nat.add_assoc]

theorem elapsed_stepsFrom (nanos : Nat → Nat) (cs : List (Except Error Command)) (i : Nat) :
    elapsed (Batch.stepsFrom nanos i cs) = 0 := by
  induction cs generalizing i with
  | nil => rfl
  | cons c cs ih =>
    cases c with
    | ok c => exact (Nat.zero_add _).trans (ih (i + 1))
    | error err => exact ih (i + 1)

theorem elapsed_stepwise (evs : List Event) : elapsed (stepwise evs) = elapsed evs := by
  have hsteps : ∀ ev : Event, elapsed ev.steps = ev.millis := fun ev => by
    cases ev with
    | call words nanos => exact elapsed_stepsFrom _ _ 0
    | batch b nanos => exact elapsed_stepsFrom nanos _ 0
    | _ => rfl
  induction evs with
  | nil => rfl
  | cons ev evs ih =>
    have hsplit : stepwise (ev :: evs) = ev.steps ++ stepwise evs := rfl
    rw [hsplit, elapsed_append, hsteps, ih, elapsed]

theorem isStep_of_mem_stepwise {evs : List Event} {step : Event} (h : step ∈ stepwise evs) :
    step.IsStep := by
  obtain ⟨ev, -, hstep⟩ := List.mem_flatMap.mp h
  rcases Event.eq_or_execute_of_mem_steps hstep with ⟨rfl, hev⟩ | ⟨c, nanos, rfl⟩
  · exact hev
  · trivial

theorem mem_of_handle_mem_stepwise {evs : List Event} {id : SubscriberId} {c : HandleCall}
    (h : .handle id c ∈ stepwise evs) : .handle id c ∈ evs := by
  obtain ⟨ev, hev, hstep⟩ := List.mem_flatMap.mp h
  rcases Event.eq_or_execute_of_mem_steps hstep with ⟨rfl, -⟩ | ⟨_, _, heq⟩
  · exact hev
  · cases heq

/-- What a machine puts out for some inputs, and the state that they leave it in. -/
def replay (step : σ → α → β × σ) : List α → σ → List β × σ
  | [], x => ([], x)
  | a :: as, x =>
    let (b, x) := step x a
    let (bs, x) := replay step as x
    (b :: bs, x)

theorem replay_cons (step : σ → α → β × σ) (a : α) (as : List α) (x : σ) :
    replay step (a :: as) x =
      ((step x a).1 :: (replay step as (step x a).2).1, (replay step as (step x a).2).2) := rfl

namespace Engine

theorem run_append (e : Engine Q) (evs evs' : List Event) : e.run (evs ++ evs') = (e.run evs).run evs' :=
  List.foldl_append

theorem run_stepsFrom (nanos : Nat → Nat) (cs : List (Except Error Command)) (i : Nat) (e : Engine Q) :
    e.run (Batch.stepsFrom nanos i cs) = (Batch.runFrom nanos i cs e).2 := by
  induction cs generalizing i e with
  | nil => rfl
  | cons c cs ih =>
    cases c with
    | ok c => exact ih (i + 1) (e.execute c (nanos i)).2
    | error err => exact ih (i + 1) e

theorem run_steps (e : Engine Q) (ev : Event) : e.run ev.steps = e.after ev := by
  cases ev with
  | call words nanos => exact run_stepsFrom (fun _ => nanos) [Command.ofWords words] 0 e
  | batch b nanos => exact run_stepsFrom nanos b.queued.toList 0 e
  | _ => rfl

theorem run_stepwise (e : Engine Q) (evs : List Event) : e.run (stepwise evs) = e.run evs := by
  induction evs generalizing e with
  | nil => rfl
  | cons ev evs ih =>
    have hsplit : stepwise (ev :: evs) = ev.steps ++ stepwise evs := rfl
    rw [hsplit, run_append, run_steps, ih, run_cons]

theorem run_keeps_steps {P : Engine Q → Prop}
    (h : ∀ (e : Engine Q) (ev : Event), ev.IsStep → P e → P (e.after ev)) (evs : List Event) (e : Engine Q)
    (he : P e) : P (e.run evs) := by
  have hsteps : ∀ (steps : List Event) (e : Engine Q), (∀ ev ∈ steps, ev.IsStep) → P e →
      P (e.run steps) := by
    intro steps
    induction steps with
    | nil => exact fun _ _ he => he
    | cons ev steps ih =>
      intro e hs he
      obtain ⟨hev, hrest⟩ := List.forall_mem_cons.mp hs
      exact ih _ hrest (h e ev hev he)
  rw [← run_stepwise]
  exact hsteps _ _ (fun _ => isStep_of_mem_stepwise) he

theorem run_keeps_of_fits {P : Engine Q → Prop} {q : Event → Prop}
    (h : ∀ (e : Engine Q) (step : Event), q step → e.keyspace.now + step.millis < UInt64.size → P e →
      P (e.after step))
    (evs : List Event) (e : Engine Q) (hq : ∀ step ∈ stepwise evs, q step)
    (hfits : e.keyspace.now + elapsed evs < UInt64.size) (he : P e) : P (e.run evs) := by
  rw [← run_stepwise]
  rw [← elapsed_stepwise] at hfits
  generalize stepwise evs = steps at hq hfits
  induction steps generalizing e with
  | nil => exact he
  | cons step steps ih =>
    obtain ⟨hstep, hsteps⟩ := List.forall_mem_cons.mp hq
    have hsum : e.keyspace.now + step.millis + elapsed steps < UInt64.size := by
      rw [Nat.add_assoc]
      exact hfits
    have hfirst : e.keyspace.now + step.millis < UInt64.size := Nat.lt_of_add_right_lt hsum
    refine ih (e.after step) (h e step hstep hfirst he) hsteps ?_
    rw [e.now_after step hfirst]
    exact hsum

/-- What each step of a run keeps, a command together with its answer, the run keeps with its transcript. -/
theorem run_keeps_transcript_of_steps {P : Engine Q → List Answer → Prop} {q : Event → Prop}
    (hexecute : ∀ e as c nanos, q (.execute c nanos) → P e as →
      P (e.execute c nanos).2 (as ++ [(.ok c, (e.execute c nanos).1)]))
    (herror : ∀ e as err, P e as → P e (as ++ [(.error err, .error err)]))
    (hother : ∀ e as ev, ev.IsStep → (∀ c nanos, ev ≠ .execute c nanos) → q ev → P e as →
      P (e.after ev) as)
    (evs : List Event) (hq : ∀ step ∈ stepwise evs, q step) (e : Engine Q) (as : List Answer) (h : P e as) :
    P (e.run evs) (as ++ e.transcript evs) := by
  -- over the commands of a batch, with the answers so far in front
  have hfrom : ∀ (nanos : Nat → Nat) (cs : List (Except Error Command)) (i : Nat) (e : Engine Q)
      (as : List Answer), (∀ step ∈ Batch.stepsFrom nanos i cs, q step) → P e as →
      P (Batch.runFrom nanos i cs e).2 (as ++ cs.zip (Batch.runFrom nanos i cs e).1) := by
    intro nanos cs
    induction cs with
    | nil =>
      intro i e as _ h
      rw [List.zip_nil_left, List.append_nil]
      exact h
    | cons c cs ih =>
      intro i e as hq h
      cases c with
      | error err =>
        have hrest := ih (i + 1) _ _ hq (herror e as err h)
        rw [List.append_assoc] at hrest
        exact hrest
      | ok c =>
        obtain ⟨hc, hcs⟩ := List.forall_mem_cons.mp hq
        have hrest := ih (i + 1) _ _ hcs (hexecute e as c (nanos i) hc h)
        rw [List.append_assoc] at hrest
        exact hrest
  have hafter : ∀ (e : Engine Q) (as : List Answer) (ev : Event), (∀ step ∈ ev.steps, q step) → P e as →
      P (e.after ev) (as ++ e.answers ev) := by
    intro e as ev hq h
    -- an event that runs no command answers nothing and is its own only step
    have silent : e.answers ev = [] → ev.steps = [ev] → ev.IsStep → (∀ c nanos, ev ≠ .execute c nanos) →
        P (e.after ev) (as ++ e.answers ev) := by
      intro hnone hsteps hstep hev
      rw [hnone, List.append_nil]
      exact hother e as ev hstep hev (hq ev (by simp [hsteps])) h
    cases ev with
    | execute c nanos => exact hexecute e as c nanos (hq _ (List.mem_singleton.mpr rfl)) h
    | call words nanos => exact hfrom (fun _ => nanos) [Command.ofWords words] 0 e as hq h
    | batch b nanos => exact hfrom nanos b.queued.toList 0 e as hq h
    | _ => exact silent rfl rfl trivial (fun _ _ => nofun)
  induction evs generalizing e as with
  | nil =>
    rw [transcript, List.append_nil]
    exact h
  | cons ev evs ih =>
    obtain ⟨hfirst, hrest⟩ := List.forall_mem_append.mp hq
    rw [run_cons, transcript, ← List.append_assoc]
    exact ih hrest _ _ (hafter e as ev hfirst h)

theorem run_keeps_transcript {P : Engine Q → List Answer → Prop}
    (hexecute : ∀ e as c nanos, P e as →
      P (e.executeParsed c nanos).2 (as ++ [(c, (e.executeParsed c nanos).1)]))
    (hother : ∀ e as ev, ev.IsStep → (∀ c nanos, ev ≠ .execute c nanos) → P e as → P (e.after ev) as)
    (evs : List Event) (e : Engine Q) (as : List Answer) (h : P e as) :
    P (e.run evs) (as ++ e.transcript evs) :=
  run_keeps_transcript_of_steps (q := fun _ => True)
    (fun e as c nanos _ h => hexecute e as (.ok c) nanos h)
    (fun e as err h => hexecute e as (.error err) 0 h)
    (fun e as ev hstep hev _ h => hother e as ev hstep hev h) evs (fun _ _ => trivial) e as h

def executeEach (e : Engine Q) (nanos : Nat → Nat) (cs : List KeyCommand) : List Outcome × Engine Q :=
  Batch.runFrom nanos 0 (cs.map fun c => .ok (.onKeys c)) e

/-- Commands that each do what a machine does to what it keeps of an engine have its outputs as outcomes. -/
theorem executeEach_replays {R : Engine Q → σ → Prop} (step : σ → α → Outcome × σ) (command : α → KeyCommand)
    (hstep : ∀ e x a nanos, R e x →
      (e.execute (.onKeys (command a)) nanos).1 = (step x a).1 ∧
        R (e.execute (.onKeys (command a)) nanos).2 (step x a).2)
    (as : List α) (nanos : Nat → Nat) {e : Engine Q} {x : σ} (h : R e x) :
    (e.executeEach nanos (as.map command)).1 = (replay step as x).1 ∧
      R (e.executeEach nanos (as.map command)).2 (replay step as x).2 := by
  rw [executeEach, List.map_map]
  generalize 0 = i
  induction as generalizing e x i with
  | nil => exact ⟨rfl, h⟩
  | cons a as ih =>
    obtain ⟨hout, hnext⟩ := hstep e x a (nanos i) h
    obtain ⟨houts, hlast⟩ := ih hnext (i + 1)
    exact ⟨List.cons_eq_cons.mpr ⟨hout, houts⟩, hlast⟩

def gather (f : Engine Q → Event → List α) (e : Engine Q) : List Event → List α
  | [] => []
  | ev :: evs => f e ev ++ gather f (e.after ev) evs

end Engine
end KeyStore
