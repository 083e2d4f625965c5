import PsxLinux.Lib.Exec

/-!
# The timer wheel

`add_timer`, `mod_timer`, `del_timer` and `run_timer_list` of `kernel/timer.c`. The five vectors
`tv1` to `tv5` are the levels 0 to 4 (the entries of `tvecs`), each slot a list of timers in
queue order.

`run_timer_list` runs in small steps between which the wheel is not locked only while a timer's
function runs; there, and while `run_timer_list` does not run at all, anyone may add, modify or
delete timers. What is unchecked in the source and would corrupt the lists is a `Fault`.
-/

namespace PsxLinux.Timer

open Lib Function

def tvnBits : ℕ := 6

def tvrBits : ℕ := 8

def tvnSize : ℕ := 1 <<< tvnBits

def tvrSize : ℕ := 1 <<< tvrBits

def tvnMask : ℕ := tvnSize - 1

def tvrMask : ℕ := tvrSize - 1

def noofTvecs : ℕ := 5

/-- The vectors, `timer_jiffies`, and of each timer its `expires` and whether
`timer->list.next != NULL`. -/
structure Wheel (τ : Type) where
  timerJiffies : UInt32
  index : ℕ → ℕ
  vec : ℕ → ℕ → List τ
  expires : τ → UInt32
  timerPending : τ → Bool

inductive Fault where
  /-- `list_del` of a timer that is on no list. -/
  | notQueued
  /-- The loop of `cascade_timers` goes on for ever. -/
  | endless
deriving DecidableEq

variable {τ : Type} [DecidableEq τ]

/-! ## Lists -/

/-- The `vec` that `internal_add_timer` picks, as level and slot. -/
def vecOf (w : Wheel τ) (timer : τ) : Option (ℕ × ℕ) :=
  let expires := w.expires timer
  let idx := expires - w.timerJiffies
  let slot (shift : ℕ) : ℕ := (expires.toNat >>> shift) &&& tvnMask
  if idx.toNat < tvrSize then some (0, expires.toNat &&& tvrMask)
  else if idx.toNat < 1 <<< (tvrBits + tvnBits) then some (1, slot tvrBits)
  else if idx.toNat < 1 <<< (tvrBits + 2 * tvnBits) then some (2, slot (tvrBits + tvnBits))
  else if idx.toNat < 1 <<< (tvrBits + 3 * tvnBits) then some (3, slot (tvrBits + 2 * tvnBits))
  else if idx.toInt32 < 0 then some (0, w.index 0)
  else if idx ≤ 0xffffffff then some (4, slot (tvrBits + 3 * tvnBits))
  else none

/-- `list_add (&timer->list, vec->prev)` -/
def Wheel.append (w : Wheel τ) (level slot : ℕ) (timer : τ) : Wheel τ :=
  { w with
    vec := update w.vec level (update (w.vec level) slot (w.vec level slot ++ [timer]))
    timerPending := update w.timerPending timer true }

/-- `internal_add_timer (timer)`. A timer that gets no list is linked to itself. -/
def internalAddTimer (w : Wheel τ) (timer : τ) : Wheel τ :=
  match vecOf w timer with
  | some (level, slot) => w.append level slot timer
  | none => { w with timerPending := update w.timerPending timer true }

/-- The timer is on some list. -/
def Wheel.queued (w : Wheel τ) (timer : τ) : Bool :=
  (List.range noofTvecs).any fun n => (List.range tvrSize).any fun i => decide (timer ∈ w.vec n i)

/-- `list_del (&timer->list)` leaves `timer->list` as it was. -/
def listDel (w : Wheel τ) (timer : τ) : Except Fault (Wheel τ) :=
  if w.queued timer then .ok { w with vec := fun n i => (w.vec n i).erase timer }
  else .error .notQueued

/-- `timer->list.next = timer->list.prev = NULL` -/
def Wheel.clear (w : Wheel τ) (timer : τ) : Wheel τ :=
  { w with timerPending := update w.timerPending timer false }

def detachTimer (w : Wheel τ) (timer : τ) : Except Fault (Wheel τ) :=
  if w.timerPending timer then listDel w timer else .ok w

/-! ## The calls -/

/-- `timer->expires = expires` -/
def Wheel.setExpires (w : Wheel τ) (timer : τ) (expires : UInt32) : Wheel τ :=
  { w with expires := update w.expires timer expires }

def modTimer (w : Wheel τ) (timer : τ) (expires : UInt32) : Except Fault (Wheel τ) :=
  match detachTimer (w.setExpires timer expires) timer with
  | .error f => .error f
  | .ok w => .ok (internalAddTimer w timer)

def delTimer (w : Wheel τ) (timer : τ) : Except Fault (Wheel τ) :=
  match detachTimer w timer with
  | .error f => .error f
  | .ok w => .ok (w.clear timer)

/-! ## `cascade_timers` -/

/-- `curr->next`, with `none` for the head of the list. -/
def nextOf (l : List τ) (curr : τ) : Option τ := (l.dropWhile (· ≠ curr)).tail.head?

/-- `while (curr != head)` -/
def cascadeLoop (level slot : ℕ) : ℕ → Option τ → Wheel τ → Except Fault (Wheel τ)
  | 0, _, _ => .error .endless
  | _ + 1, none, w => .ok w
  | fuel + 1, some curr, w =>
    let next := nextOf (w.vec level slot) curr
    match listDel w curr with
    | .error f => .error f
    | .ok w => cascadeLoop level slot fuel next (internalAddTimer w curr)

def cascadeTimers (w : Wheel τ) (level : ℕ) : Except Fault (Wheel τ) :=
  let slot := w.index level
  let list := w.vec level slot
  match cascadeLoop level slot (list.length + 1) list.head? w with
  | .error f => .error f
  | .ok w =>
    .ok { w with
      vec := update w.vec level (update (w.vec level) slot [])
      index := update w.index level ((w.index level + 1) &&& tvnMask) }

/-- `do { cascade_timers (tvecs[n]); } while (tvecs[n]->index == 1 && ++n < NOOF_TVECS)`,
with at most `fuel` turns to go. -/
def cascadeFrom : (fuel n : ℕ) → Wheel τ → Except Fault (Wheel τ)
  | 0, _, w => .ok w
  | fuel + 1, n, w =>
    match cascadeTimers w n with
    | .error f => .error f
    | .ok w => if w.index n = 1 then cascadeFrom fuel (n + 1) w else .ok w

/-! ## `run_timer_list` -/

/-- Where `run_timer_list` is. -/
inductive Phase where
  /-- It does not run. -/
  | idle
  /-- At the test of the outer loop. -/
  | loopHead
  /-- At the label `repeat`. -/
  | atRepeat
  /-- A timer's function runs, and the wheel is not locked. -/
  | inFn
deriving DecidableEq

structure Sys (τ : Type) where
  wheel : Wheel τ
  jiffies : UInt32
  phase : Phase
  fault : Option Fault

inductive Act (τ : Type) where
  /-- `timer->expires = expires; add_timer (timer)`, where `expires` of a pending timer is
  left alone. -/
  | addTimer (timer : τ) (expires : UInt32)
  | modTimer (timer : τ) (expires : UInt32)
  | delTimer (timer : τ)
  /-- `jiffies++` -/
  | tick
  /-- `run_timer_list` is entered. -/
  | enter
  /-- `run_timer_list` goes on. -/
  | go
  /-- The timer's function returns. -/
  | ret

/-- What can be seen of the wheel. The last argument of each is `timer_jiffies`. -/
inductive Event (τ : Type) where
  | queued (timer : τ) (expires now : UInt32)
  | removed (timer : τ)
  | called (timer : τ) (now : UInt32)
  /-- The iteration of `run_timer_list` with this `timer_jiffies` is over. -/
  | finished (now : UInt32)
deriving DecidableEq

/-- Nobody is in the critical section. -/
def Phase.unlocked : Phase → Bool
  | .idle | .inFn => true
  | .loopHead | .atRepeat => false

/-- The state after a computation that may have met a fault. -/
def Sys.after (s : Sys τ) (r : Except Fault (Wheel τ)) (phase : Phase)
    (evs : List (Event τ)) : Sys τ × List (Event τ) :=
  match r with
  | .ok w => ({ s with wheel := w, phase := phase }, evs)
  | .error f => ({ s with fault := some f }, [])

/-- From the test of the outer loop to the label `repeat`. -/
def loopHead (s : Sys τ) : Sys τ × List (Event τ) :=
  if 0 ≤ (s.jiffies - s.wheel.timerJiffies).toInt32 then
    if s.wheel.index 0 = 0 then s.after (cascadeFrom (noofTvecs - 1) 1 s.wheel) .atRepeat []
    else s.after (.ok s.wheel) .atRepeat []
  else s.after (.ok s.wheel) .idle []

/-- From the label `repeat` to the call of a timer's function, or to the end of the
iteration. -/
def repeatStep (s : Sys τ) : Sys τ × List (Event τ) :=
  let w := s.wheel
  match w.vec 0 (w.index 0) with
  | timer :: _ =>
    match detachTimer w timer with
    | .error f => s.after (.error f) .inFn []
    | .ok w => s.after (.ok (w.clear timer)) .inFn [.called timer w.timerJiffies]
  | [] =>
    let w' := { w with
      timerJiffies := w.timerJiffies + 1
      index := update w.index 0 ((w.index 0 + 1) &&& tvrMask) }
    s.after (.ok w') .loopHead [.finished w.timerJiffies]

/-- One step; nothing follows a fault. -/
def step (s : Sys τ) (a : Act τ) : Option (Sys τ × List (Event τ)) :=
  if s.fault.isSome then none
  else
    match a with
    | .addTimer timer expires =>
      if s.phase.unlocked then
        -- "bug: kernel timer added twice"
        if s.wheel.timerPending timer then some (s, [])
        else
          some (s.after (.ok (internalAddTimer (s.wheel.setExpires timer expires) timer)) s.phase
            [.queued timer expires s.wheel.timerJiffies])
      else none
    | .modTimer timer expires =>
      if s.phase.unlocked then
        some (s.after (modTimer s.wheel timer expires) s.phase
          [.queued timer expires s.wheel.timerJiffies])
      else none
    | .delTimer timer =>
      if s.phase.unlocked then
        some (s.after (delTimer s.wheel timer) s.phase [.removed timer])
      else none
    | .tick => some ({ s with jiffies := s.jiffies + 1 }, [])
    | .enter => if s.phase = .idle then some ({ s with phase := .loopHead }, []) else none
    | .go =>
      match s.phase with
      | .loopHead => some (loopHead s)
      | .atRepeat => some (repeatStep s)
      | .idle | .inFn => none
    | .ret => if s.phase = .inFn then some ({ s with phase := .atRepeat }, []) else none

/-- After `init_timervecs`, whatever the timers not yet added hold in `expires`. -/
def Sys.init (expires : τ → UInt32) : Sys τ where
  wheel := {
    timerJiffies := 0
    index := fun _ => 0
    vec := fun _ _ => []
    expires := expires
    timerPending := fun _ => false }
  jiffies := 0
  phase := .idle
  fault := none

end PsxLinux.Timer
