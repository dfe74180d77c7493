/-
  `CoreIO::NetworkThread` (`io/network_thread.h`, `io/network_thread.cpp`): tasks that any
  thread posts and the network thread executes, woken through the `uv_async_t` of the vendored
  libuv (`src/unix/async.c`).

  `Post` puts its task in the list under the mutex and then calls `uv_async_send`, which reads
  `pending`, sets it, and writes the event when it was not set. The loop, once it has read the
  event, takes `pending` back and calls `OnAsyncTask`, which swaps the list out and executes
  what was in it. Every access to what the threads share is a step of its own, and a run is any
  interleaving of them, taken to be sequentially consistent.

  A task that posts does so as one more thread. Left out: `busy`, which only closing the handle
  waits on, with that and the futures; what else the loop polls.
-/
import Bifrost.Lib.Trace
import Mathlib.Algebra.BigOperators.Group.Finset.Basic
import Mathlib.Algebra.BigOperators.Group.Finset.Piecewise

namespace Bifrost.Io

/-- Where a thread stands in `Post`. -/
inductive Posting where
  | outside
  /-- The task is in the list. -/
  | listed
  /-- It has read that `pending` is 0. -/
  | unset
  /-- It has set `pending`, which was 0 until then. -/
  | ringing
  deriving DecidableEq, Repr

/-- Where the loop stands. -/
inductive Loop (τ : Type) where
  | polling
  /-- `uv__async_io` has read the event. -/
  | woken
  /-- `pending` was set, so that the callback runs. -/
  | called
  | executing (tasks : List τ)
  deriving DecidableEq, Repr

/-- Over threads `ι` and tasks `τ`. -/
structure NetworkThread (ι τ : Type) where
  taskLists : List τ := []
  pending : Bool := false
  /-- The counter of the eventfd, which is readable unless 0. -/
  events : Nat := 0
  posting : ι → Posting := fun _ => .outside
  loop : Loop τ := .polling

/-- One access to what is shared. -/
inductive Access (ι τ : Type) where
  /-- `task_lists_.push_back`. -/
  | pushBack (i : ι) (task : τ)
  /-- `atomic_load_explicit(pending)`. -/
  | load (i : ι)
  /-- `atomic_exchange(pending, 1)`. -/
  | exchange (i : ι)
  /-- `write(fd)`. -/
  | write (i : ι)
  /-- `read(fd)`. -/
  | read
  /-- `atomic_exchange(pending, 0)`. -/
  | clear
  /-- `tasks.swap(task_lists_)`. -/
  | swap
  /-- The next round of the loop over `tasks`, or its end. -/
  | execute
  deriving DecidableEq, Repr

namespace NetworkThread

variable {ι τ : Type}

section Steps

variable [DecidableEq ι]

def move (n : NetworkThread ι τ) (i : ι) (p : Posting) : NetworkThread ι τ :=
  { n with posting := Function.update n.posting i p }

/-- What an access does, and the task it executes. A thread that stands elsewhere does not make
    it. -/
def step (n : NetworkThread ι τ) : Access ι τ → Except Unit (NetworkThread ι τ × List τ)
  | .pushBack i task =>
    match n.posting i with
    | .outside => .ok ({ n with taskLists := n.taskLists ++ [task] }.move i .listed, [])
    | _ => .error ()
  | .load i =>
    match n.posting i with
    | .listed => .ok (n.move i (if n.pending then .outside else .unset), [])
    | _ => .error ()
  | .exchange i =>
    match n.posting i with
    | .unset =>
      .ok ({ n with pending := true }.move i (if n.pending then .outside else .ringing), [])
    | _ => .error ()
  | .write i =>
    match n.posting i with
    | .ringing => .ok ({ n with events := n.events + 1 }.move i .outside, [])
    | _ => .error ()
  | .read =>
    match n.loop with
    | .polling =>
      if 0 < n.events then .ok ({ n with events := 0, loop := .woken }, []) else .error ()
    | _ => .error ()
  | .clear =>
    match n.loop with
    | .woken =>
      .ok ({ n with pending := false, loop := if n.pending then .called else .polling }, [])
    | _ => .error ()
  | .swap =>
    match n.loop with
    | .called => .ok ({ n with taskLists := [], loop := .executing n.taskLists }, [])
    | _ => .error ()
  | .execute =>
    match n.loop with
    | .executing (task :: tasks) => .ok ({ n with loop := .executing tasks }, [task])
    | .executing [] => .ok ({ n with loop := .polling }, [])
    | _ => .error ()

end Steps

end NetworkThread

/-- The task that an access posts. -/
def Access.posts {ι τ : Type} : Access ι τ → List τ
  | .pushBack _ task => [task]
  | _ => []

namespace NetworkThread

variable {ι τ : Type} {n n' : NetworkThread ι τ} {e : Access ι τ} {out : List τ}

/-- The tasks that `OnAsyncTask` has taken and not executed yet. -/
def inHand (n : NetworkThread ι τ) : List τ :=
  match n.loop with
  | .executing tasks => tasks
  | _ => []

/-- The tasks still to be executed, in order. -/
def waiting (n : NetworkThread ι τ) : List τ := n.inHand ++ n.taskLists

/-- The loop is going to look at `pending`. -/
def Signalled (n : NetworkThread ι τ) : Prop :=
  0 < n.events ∨ (∃ i, n.posting i = .ringing) ∨ n.loop = .woken

/-- A thread is going to see that `pending` is set, or the loop to take the list. -/
def Noticed (n : NetworkThread ι τ) : Prop :=
  n.pending = true ∨ (∃ i, n.posting i = .listed ∨ n.posting i = .unset) ∨ n.loop = .called

/-- Someone goes on while `pending` is set, and while there are tasks in the list. -/
structure Awake (n : NetworkThread ι τ) : Prop where
  signalled : n.pending = true → n.Signalled
  noticed : n.taskLists ≠ [] → n.Noticed

/-- What the loop does elsewhere takes neither along. -/
theorem Signalled.loop {loop : Loop τ} (h : n.Signalled) (hloop : n.loop ≠ .woken) :
    { n with loop }.Signalled := by
  rcases h with hevents | hringing | hwoken
  · exact .inl hevents
  · exact .inr (.inl hringing)
  · exact absurd hwoken hloop

theorem Noticed.loop {loop : Loop τ} (h : n.Noticed) (hloop : n.loop ≠ .called) :
    { n with loop }.Noticed := by
  rcases h with hset | hposting | hcalled
  · exact .inl hset
  · exact .inr (.inl hposting)
  · exact absurd hcalled hloop

variable [DecidableEq ι]

/-- What a step can be. -/
inductive Moves (n : NetworkThread ι τ) : Access ι τ → NetworkThread ι τ → List τ → Prop
  | pushBack {i : ι} {task : τ} (h : n.posting i = .outside) : n.Moves (.pushBack i task)
      ({ n with taskLists := n.taskLists ++ [task] }.move i .listed) []
  | loadSet {i : ι} (h : n.posting i = .listed) (hset : n.pending = true) :
      n.Moves (.load i) (n.move i .outside) []
  | loadUnset {i : ι} (h : n.posting i = .listed) (hset : n.pending = false) :
      n.Moves (.load i) (n.move i .unset) []
  | exchangeSet {i : ι} (h : n.posting i = .unset) (hset : n.pending = true) :
      n.Moves (.exchange i) (n.move i .outside) []
  | exchangeUnset {i : ι} (h : n.posting i = .unset) (hset : n.pending = false) :
      n.Moves (.exchange i) ({ n with pending := true }.move i .ringing) []
  | write {i : ι} (h : n.posting i = .ringing) :
      n.Moves (.write i) ({ n with events := n.events + 1 }.move i .outside) []
  | read (h : n.loop = .polling) (hevents : 0 < n.events) :
      n.Moves .read { n with events := 0, loop := .woken } []
  | clearSet (h : n.loop = .woken) (hset : n.pending = true) :
      n.Moves .clear { n with pending := false, loop := .called } []
  | clearUnset (h : n.loop = .woken) (hset : n.pending = false) :
      n.Moves .clear { n with loop := .polling } []
  | swap (h : n.loop = .called) :
      n.Moves .swap { n with taskLists := [], loop := .executing n.taskLists } []
  | execute {task : τ} {tasks : List τ} (h : n.loop = .executing (task :: tasks)) :
      n.Moves .execute { n with loop := .executing tasks } [task]
  | done (h : n.loop = .executing []) : n.Moves .execute { n with loop := .polling } []

theorem moves_of_step (hok : n.step e = .ok (n', out)) : n.Moves e n' out := by
  cases e with
  | pushBack i task =>
      rw [step] at hok
      split at hok
      · next h =>
          cases hok
          exact .pushBack h
      · cases hok
  | load i =>
      rw [step] at hok
      split at hok
      · next h =>
          cases hok
          cases hset : n.pending with
          | true => exact .loadSet h hset
          | false => exact .loadUnset h hset
      · cases hok
  | exchange i =>
      rw [step] at hok
      split at hok
      · next h =>
          cases hok
          cases hset : n.pending with
          | true =>
              rw [if_pos rfl, show { n with pending := true } = n by rw [← hset]]
              exact .exchangeSet h hset
          | false => exact .exchangeUnset h hset
      · cases hok
  | write i =>
      rw [step] at hok
      split at hok
      · next h =>
          cases hok
          exact .write h
      · cases hok
  | read =>
      rw [step] at hok
      split at hok
      · next h =>
          split at hok
          · next hevents =>
              cases hok
              exact .read h hevents
          · cases hok
      · cases hok
  | clear =>
      rw [step] at hok
      split at hok
      · next h =>
          cases hok
          cases hset : n.pending with
          | true => exact .clearSet h hset
          | false =>
              rw [if_neg Bool.false_ne_true, ← hset]
              exact .clearUnset h hset
      · cases hok
  | swap =>
      rw [step] at hok
      split at hok
      · next h =>
          cases hok
          exact .swap h
      · cases hok
  | execute =>
      rw [step] at hok
      split at hok
      · next h =>
          cases hok
          exact .execute h
      · next h =>
          cases hok
          exact .done h
      · cases hok

/-! ## In order -/

theorem waiting_step (hok : n.step e = .ok (n', out)) :
    n.waiting ++ e.posts = out ++ n'.waiting := by
  cases moves_of_step hok with
  | pushBack h => exact List.append_assoc _ _ _
  | loadSet h hset => exact List.append_nil _
  | loadUnset h hset => exact List.append_nil _
  | exchangeSet h hset => exact List.append_nil _
  | exchangeUnset h hset => exact List.append_nil _
  | write h => exact List.append_nil _
  | read h hevents => simp [waiting, inHand, h, Access.posts]
  | clearSet h hset => simp [waiting, inHand, h, Access.posts]
  | clearUnset h hset => simp [waiting, inHand, h, Access.posts]
  | swap h => simp [waiting, inHand, h, Access.posts]
  | execute h => simp [waiting, inHand, h, Access.posts]
  | done h => simp [waiting, inHand, h, Access.posts]

/-! ## No wake-up is lost -/

theorem posting_move (n : NetworkThread ι τ) (i : ι) (p : Posting) :
    (n.move i p).posting i = p := Function.update_self ..

theorem posting_move_ne {i j : ι} {p : Posting} (hne : j ≠ i) :
    (n.move i p).posting j = n.posting j := Function.update_of_ne hne _ _

/-- A thread that is not ringing does not take the signal along. -/
theorem Signalled.move {i : ι} {p : Posting} (h : n.Signalled) (hi : n.posting i ≠ .ringing) :
    (n.move i p).Signalled := by
  rcases h with hevents | ⟨j, hj⟩ | hwoken
  · exact .inl hevents
  · have hne : j ≠ i := fun heq => hi (heq ▸ hj)
    exact .inr (.inl ⟨j, by rw [posting_move_ne hne, hj]⟩)
  · exact .inr (.inr hwoken)

theorem Noticed.write {i : ι} (h : n.Noticed) (hi : n.posting i = .ringing) :
    (n.move i .outside).Noticed := by
  rcases h with hset | ⟨j, hj⟩ | hcalled
  · exact .inl hset
  · have hne : j ≠ i := by
      rintro rfl
      rw [hi] at hj
      rcases hj with hj | hj <;> cases hj
    exact .inr (.inl ⟨j, by rwa [posting_move_ne hne]⟩)
  · exact .inr (.inr hcalled)

theorem awake_step (h : n.Awake) (hok : n.step e = .ok (n', out)) : n'.Awake := by
  obtain ⟨hsignalled, hnoticed⟩ := h
  cases moves_of_step hok with
  | pushBack hi =>
      exact ⟨fun hset => Signalled.move (hsignalled hset) (by rw [hi]; decide),
        fun _ => .inr (.inl ⟨_, .inl (posting_move _ _ _)⟩)⟩
  | loadSet hi hset =>
      exact ⟨fun _ => (hsignalled hset).move (by rw [hi]; decide), fun _ => .inl hset⟩
  | loadUnset hi hset =>
      exact ⟨fun hset' => (by cases hset.symm.trans hset'),
        fun _ => .inr (.inl ⟨_, .inr (posting_move _ _ _)⟩)⟩
  | exchangeSet hi hset =>
      exact ⟨fun _ => (hsignalled hset).move (by rw [hi]; decide), fun _ => .inl hset⟩
  | exchangeUnset hi hset =>
      exact ⟨fun _ => .inr (.inl ⟨_, posting_move _ _ _⟩), fun _ => .inl rfl⟩
  | write hi =>
      exact ⟨fun _ => .inl (Nat.succ_pos _), fun hne => Noticed.write (hnoticed hne) hi⟩
  | read hloop hevents =>
      exact ⟨fun _ => .inr (.inr rfl),
        fun hne => Noticed.loop (hnoticed hne) (by rw [hloop]; simp)⟩
  | clearSet hloop hset => exact ⟨fun hset' => (by cases hset'), fun _ => .inr (.inr rfl)⟩
  | clearUnset hloop hset =>
      exact ⟨fun hset' => (by cases hset.symm.trans hset'),
        fun hne => (hnoticed hne).loop (by rw [hloop]; simp)⟩
  | swap hloop =>
      exact ⟨fun hset => Signalled.loop (hsignalled hset) (by rw [hloop]; simp),
        fun hne => absurd rfl hne⟩
  | execute hloop =>
      exact ⟨fun hset => (hsignalled hset).loop (by rw [hloop]; simp),
        fun hne => (hnoticed hne).loop (by rw [hloop]; simp)⟩
  | done hloop =>
      exact ⟨fun hset => (hsignalled hset).loop (by rw [hloop]; simp),
        fun hne => (hnoticed hne).loop (by rw [hloop]; simp)⟩

theorem awake_run {es : List (Access ι τ)} {outs : List τ}
    (hrun : Trace.runOut step {} es = .ok (n, outs)) : n.Awake :=
  (Trace.runOut_invariant (I := Awake) (P := fun _ => True) (Q := fun _ => True)
    (fun _ _ _ _ h _ hok => ⟨awake_step h hok, fun _ _ => trivial⟩) es
    ⟨fun h => (by cases h), fun h => absurd rfl h⟩ (fun _ _ => trivial) hrun).1

/-- Nothing goes on but a new `Post`. -/
def Resting (n : NetworkThread ι τ) : Prop := ∀ e, e.posts = [] → n.step e = .error ()

/-- Where nothing goes on nothing waits: all threads are outside, and the loop polls on an event
    that is not there. -/
theorem waiting_of_resting (h : n.Awake) (hrest : n.Resting) : n.waiting = [] := by
  have hposting : ∀ i, n.posting i = .outside := by
    intro i
    cases hi : n.posting i with
    | outside => rfl
    | listed =>
        have := hrest (.load i) rfl
        rw [step, hi] at this
        cases this
    | unset =>
        have := hrest (.exchange i) rfl
        rw [step, hi] at this
        cases this
    | ringing =>
        have := hrest (.write i) rfl
        rw [step, hi] at this
        cases this
  have hloop : n.loop = .polling := by
    cases hl : n.loop with
    | polling => rfl
    | woken =>
        have := hrest .clear rfl
        rw [step, hl] at this
        cases this
    | called =>
        have := hrest .swap rfl
        rw [step, hl] at this
        cases this
    | executing tasks =>
        have := hrest .execute rfl
        rw [step, hl] at this
        cases tasks <;> cases this
  have hevents : ¬ 0 < n.events := by
    intro hpos
    have := hrest .read rfl
    rw [step, hloop] at this
    dsimp only at this
    rw [if_pos hpos] at this
    cases this
  have hpending : n.pending = false := by
    by_contra hset
    rcases h.signalled (by simpa using hset) with hpos | ⟨i, hi⟩ | hwoken
    · exact hevents hpos
    · cases (hposting i).symm.trans hi
    · cases hloop.symm.trans hwoken
  have htasks : n.taskLists = [] := by
    by_contra hne
    rcases h.noticed hne with hset | ⟨i, hi | hi⟩ | hcalled
    · cases hpending.symm.trans hset
    · cases (hposting i).symm.trans hi
    · cases (hposting i).symm.trans hi
    · cases hloop.symm.trans hcalled
  rw [waiting, inHand, hloop, htasks]
  rfl

end NetworkThread

/-! ## No thread spins -/

/-- The accesses to come in a `Post`, with those that its event has the loop make. -/
def Posting.rest : Posting → Nat
  | .outside => 0
  | .listed => 7
  | .unset => 6
  | .ringing => 5

/-- The accesses that the loop makes before it polls again. -/
def Loop.rest {τ : Type} : Loop τ → Nat
  | .polling => 0
  | .woken => 3
  | .called => 2
  | .executing tasks => 1 + tasks.length

namespace NetworkThread

variable {ι τ : Type} [DecidableEq ι] [Fintype ι] {n n' : NetworkThread ι τ} {e : Access ι τ}
  {out : List τ}

/-- At most so many accesses come before nothing goes on. -/
def rest (n : NetworkThread ι τ) : Nat :=
  (∑ i, (n.posting i).rest) + (if 0 < n.events then 4 else 0) + n.loop.rest + n.taskLists.length

/-- A thread that moves takes its own accesses along. -/
theorem rest_move (n : NetworkThread ι τ) (i : ι) (p : Posting) :
    (n.move i p).rest + (n.posting i).rest = n.rest + p.rest := by
  have hupdate : ∀ j, ((n.move i p).posting j).rest =
      Function.update (fun j => (n.posting j).rest) i p.rest j :=
    fun j => Function.apply_update (fun _ => Posting.rest) n.posting i p j
  have hsum : (∑ j, ((n.move i p).posting j).rest) + (n.posting i).rest =
      (∑ j, (n.posting j).rest) + p.rest := by
    rw [Finset.sum_congr rfl fun j _ => hupdate j, Finset.sum_update_of_mem (Finset.mem_univ i),
      Finset.sdiff_singleton_eq_erase,
      ← Finset.add_sum_erase Finset.univ (fun j => (n.posting j).rest) (Finset.mem_univ i)]
    omega
  rw [rest, rest, show (n.move i p).events = n.events from rfl,
    show (n.move i p).loop = n.loop from rfl, show (n.move i p).taskLists = n.taskLists from rfl]
  omega

/-- Every access brings the end nearer, but for those that post. -/
theorem rest_step (hok : n.step e = .ok (n', out)) :
    n'.rest + 1 ≤ n.rest + 9 * e.posts.length := by
  cases moves_of_step hok with
  | @pushBack i task h =>
      have hmove := rest_move { n with taskLists := n.taskLists ++ [task] } i .listed
      have hlist : { n with taskLists := n.taskLists ++ [task] }.rest = n.rest + 1 := by
        rw [rest, rest, List.length_append, List.length_singleton, ← Nat.add_assoc]
      rw [hlist, h, Posting.rest, Posting.rest] at hmove
      rw [Access.posts, List.length_singleton]
      omega
  | @loadSet i h hset =>
      have hmove := rest_move n i .outside
      rw [h, Posting.rest, Posting.rest] at hmove
      omega
  | @loadUnset i h hset =>
      have hmove := rest_move n i .unset
      rw [h, Posting.rest, Posting.rest] at hmove
      omega
  | @exchangeSet i h hset =>
      have hmove := rest_move n i .outside
      rw [h, Posting.rest, Posting.rest] at hmove
      omega
  | @exchangeUnset i h hset =>
      have hmove := rest_move { n with pending := true } i .ringing
      have hflag : { n with pending := true }.rest = n.rest := rfl
      rw [hflag, h, Posting.rest, Posting.rest] at hmove
      omega
  | @write i h =>
      have hmove := rest_move { n with events := n.events + 1 } i .outside
      have hevent : { n with events := n.events + 1 }.rest ≤ n.rest + 4 := by
        rw [rest, rest, if_pos (Nat.succ_pos n.events)]
        dsimp only
        split_ifs <;> omega
      rw [h, Posting.rest, Posting.rest] at hmove
      omega
  | read h hevents =>
      rw [rest, rest, h, if_pos hevents, if_neg (Nat.lt_irrefl 0), Loop.rest, Loop.rest]
      dsimp only
      omega
  | clearSet h hset =>
      rw [rest, rest, h, Loop.rest, Loop.rest]
      dsimp only
      omega
  | clearUnset h hset =>
      rw [rest, rest, h, Loop.rest, Loop.rest]
      dsimp only
      omega
  | swap h =>
      rw [rest, rest, h, Loop.rest, Loop.rest, List.length_nil]
      dsimp only
      omega
  | execute h =>
      rw [rest, rest, h, Loop.rest, Loop.rest, List.length_cons]
      dsimp only
      omega
  | done h =>
      rw [rest, rest, h, Loop.rest, Loop.rest, List.length_nil]
      dsimp only
      omega

/-- The tasks that a run posts, in the order of the list. -/
def posted (es : List (Access ι τ)) : List τ := es.flatMap Access.posts

/-- **Every task that is posted is executed, once and in order, whatever the threads do when.**
    What has been executed is the first of what has been posted. When nothing goes on but a new
    `Post`, all of it has been: no wake-up is lost. And that comes after at most nine accesses for
    each `Post`. -/
theorem posted_executed (es : List (Access ι τ)) {n : NetworkThread ι τ} {executed : List τ}
    (hrun : Trace.runOut step {} es = .ok (n, executed)) :
    executed <+: posted es ∧ (n.Resting → executed = posted es) ∧
      es.length ≤ 9 * (posted es).length := by
  have hqueue := Trace.runOut_queue waiting Access.posts (fun _ _ _ _ => waiting_step) es hrun
  rw [show ({} : NetworkThread ι τ).waiting = [] from rfl, List.nil_append, ← posted] at hqueue
  have hlength := Trace.runOut_length_le rest Access.posts 9 (fun _ _ _ _ => rest_step) es hrun
  have hstart : ({} : NetworkThread ι τ).rest = 0 := by
    rw [rest]
    simp [Posting.rest, Loop.rest]
  rw [hstart, ← posted] at hlength
  refine ⟨⟨n.waiting, hqueue.symm⟩, fun hrest => ?_, by omega⟩
  rw [hqueue, waiting_of_resting (awake_run hrun) hrest, List.append_nil]

/-- Two threads post at once and one of them rings. -/
def twoPosts : List (Access Bool Nat) :=
  [.pushBack true 1, .pushBack false 2, .load true, .exchange true, .load false, .write true,
    .read, .clear, .swap, .execute, .execute, .execute]

theorem posted_executed_two : ∃ n, Trace.runOut step {} twoPosts = .ok (n, [1, 2]) ∧
    twoPosts.length ≤ 9 * (posted twoPosts).length := by
  obtain ⟨n, hrun⟩ : ∃ n, Trace.runOut step {} twoPosts = .ok (n, [1, 2]) := ⟨_, rfl⟩
  exact ⟨n, hrun, (posted_executed twoPosts hrun).2.2⟩

end NetworkThread

end Bifrost.Io
