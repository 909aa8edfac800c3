import Reservation.Bag
import Reservation.RxOperators
import Mathlib.Algebra.Group.Int.Defs

/-! The sink of `flatMap`, on top of its group of disposables. Its source gives
nothing while it is subscribed to; an inner sequence may. -/

namespace Rx

variable {α β ε : Type*}

/-- Swift's `Int`; a result outside of it is a trap. -/
def checkedInt (n : Int) : Option Int := if -2 ^ 63 ≤ n ∧ n < 2 ^ 63 then some n else none

/-- The disposables of `group` are numbered, the subscription to the source with
zero. `iters` has the inner sequences that may still notify, with the key that
the observer of each has got. -/
structure MergeSink where
  group : Option (Bag Nat)
  sourceSubscription : Bool := true
  subscriptions : Nat := 0
  iters : List (Nat × UInt64) := []
  activeCount : Int := 0
  stopped : Bool := false
  disposed : Bool := false
  deriving DecidableEq

inductive MergeCall (ε α β : Type*)
  | on (event : Event ε α)
  | inner (iter : Nat) (event : Event ε β)
  | dispose
  deriving DecidableEq

def MergeCall.isElement : MergeCall ε α β → Bool
  | on (.next _) => true
  | _ => false

namespace MergeSink

def run : MergeSink := { group := some (({} : Bag Nat).insert 0).2 }

def forwardOn (s : MergeSink) (event : Event ε β) : List (Event ε β) := if s.disposed then [] else [event]

def disposeOne (s : MergeSink) (disposable : Nat) : MergeSink :=
  { s with
    sourceSubscription := s.sourceSubscription && disposable ≠ 0
    iters := without disposable s.iters }

/-- A key of a group that has been disposed removes nothing. -/
def remove (s : MergeSink) (disposeKey : UInt64) : Option MergeSink :=
  match s.group with
  | none => some s
  | some bag =>
    (bag.removeKey disposeKey).map fun removed =>
      match removed.1 with
      | some disposable => { s with group := some removed.2 }.disposeOne disposable
      | none => { s with group := some removed.2 }

variable (order : HashOrder Nat)

def dispose (s : MergeSink) : MergeSink :=
  match s.group with
  | none => { s with disposed := true }
  | some bag => (bag.dispatch order).foldl disposeOne { s with disposed := true, group := none }

def checkCompleted (s : MergeSink) : MergeSink × List (Event ε β) :=
  if s.stopped ∧ s.activeCount = 0 then (s.dispose order, s.forwardOn .completed) else (s, [])

/-- `on` of the observer of an inner sequence. -/
def iterOn (s : MergeSink) (iter : Nat) (disposeKey : UInt64) :
    Event ε β → Option (MergeSink × List (Event ε β))
  | .next value => some (s, s.forwardOn (.next value))
  | .error error => some ({ s with iters := without iter s.iters }.dispose order, s.forwardOn (.error error))
  | .completed =>
    ({ s with iters := without iter s.iters }.remove disposeKey).bind fun s =>
      (checkedInt (s.activeCount - 1)).map fun activeCount => checkCompleted order { s with activeCount }

/-- The notifications of inner sequences; dropped if a sequence has ended or its
subscription has been disposed. -/
def inner : Machine (Option MergeSink) (Nat × Event ε β) (Event ε β) where
  step
    | none, _ => (none, [])
    | some s, (iter, event) =>
      match s.iters.lookup iter with
      | none => (some s, [])
      | some disposeKey =>
        match s.iterOn order iter disposeKey event with
        | none => (none, [])
        | some (s', out) => (some s', out)

def subscribeInner (s : MergeSink) (source : List (Event ε β)) : Option MergeSink × List (Event ε β) :=
  match s.group with
  | none => (some s, [])
  | some bag =>
    let iter := s.subscriptions + 1
    let inserted := bag.insert iter
    (inner order).steps
      (some { s with
        group := some inserted.2
        subscriptions := iter
        iters := s.iters ++ [(iter, inserted.1)] })
      (source.map (iter, ·))

variable (selector : α → Except ε (List (Event ε β)))

def on (s : MergeSink) : Event ε α → Option MergeSink × List (Event ε β)
  | .next element =>
    match selector element with
    | .error error => (some (s.dispose order), s.forwardOn (.error error))
    | .ok value =>
      match checkedInt (s.activeCount + 1) with
      | none => (none, [])
      | some activeCount => subscribeInner order { s with activeCount } value
  | .error error =>
    (some ({ s with sourceSubscription := false }.dispose order), s.forwardOn (.error error))
  | .completed =>
    let checked := checkCompleted order { s with stopped := true, sourceSubscription := false }
    (some checked.1, checked.2)

end MergeSink

/-- `selector` has what an inner sequence gives as soon as it is subscribed to. -/
def mergeSink (order : HashOrder Nat) (selector : α → Except ε (List (Event ε β))) :
    Machine (Option MergeSink) (MergeCall ε α β) (Event ε β) where
  step
    | none, _ => (none, [])
    | some s, .on event => if s.sourceSubscription then s.on order selector event else (some s, [])
    | some s, .inner iter event => (MergeSink.inner order).step (some s) (iter, event)
    | some s, .dispose => (some (s.dispose order), [])

/-- What `flatMap` is for: the inner sequences that are open, in the order in
which they were made. -/
structure MergeLaw where
  source : Bool := true
  inners : List Nat := []
  made : Nat := 0
  deriving DecidableEq

namespace MergeLaw

def ended (law : MergeLaw) : MergeLaw := { law with source := false, inners := [] }

def completed (law : MergeLaw) : List (Event ε β) :=
  if law.source = false ∧ law.inners = [] then [.completed] else []

def inner : Machine MergeLaw (Nat × Event ε β) (Event ε β) where
  step law notification :=
    if notification.1 ∈ law.inners then
      match notification.2 with
      | .next value => (law, [.next value])
      | .error error => (law.ended, [.error error])
      | .completed =>
        let rest := { law with inners := law.inners.erase notification.1 }
        (rest, rest.completed)
    else (law, [])

def subscribeInner (law : MergeLaw) (source : List (Event ε β)) : MergeLaw × List (Event ε β) :=
  inner.steps { law with inners := law.inners ++ [law.made + 1], made := law.made + 1 }
    (source.map (law.made + 1, ·))

end MergeLaw

def mergeLaw (selector : α → Except ε (List (Event ε β))) :
    Machine MergeLaw (MergeCall ε α β) (Event ε β) where
  step
    | law, .on event =>
      if law.source then
        match event with
        | .next element =>
          match selector element with
          | .error error => (law.ended, [.error error])
          | .ok value => law.subscribeInner value
        | .error error => (law.ended, [.error error])
        | .completed => ({ law with source := false }, { law with source := false }.completed)
      else (law, [])
    | law, .inner iter event => MergeLaw.inner.step law (iter, event)
    | law, .dispose => (law.ended, [])

namespace MergeSink

/-- A disposable of the group lies under its own number. -/
def entry (disposable : Nat) : UInt64 × Nat := (UInt64.ofNat disposable, disposable)

structure Live (s : MergeSink) (law : MergeLaw) : Prop where
  group : ∃ bag, s.group = some bag ∧ bag.Holds ⟨law.made + 1, (0 :: law.inners).map entry⟩
  sourceSubscription : s.sourceSubscription = law.source
  subscriptions : s.subscriptions = law.made
  iters : s.iters = law.inners.map fun iter => (iter, UInt64.ofNat iter)
  activeCount : s.activeCount = law.inners.length
  stopped : s.stopped = !law.source
  disposed : s.disposed = false
  made : law.inners.length ≤ law.made

structure Ended (s : MergeSink) (law : MergeLaw) : Prop where
  group : s.group = none
  sourceSubscription : s.sourceSubscription = false
  iters : s.iters = []
  disposed : s.disposed = true
  source : law.source = false
  inners : law.inners = []

def Represents (state : Option MergeSink) (law : MergeLaw) : Prop :=
  ∃ s, state = some s ∧ (s.Live law ∧ (law.source = true ∨ law.inners ≠ []) ∨ s.Ended law)

theorem without_map {κ κ' : Type*} [DecidableEq κ] {f : Nat → κ} {g : Nat → κ'} {l : List Nat}
    (hkeys : (l.map f).Nodup) {n : Nat} (hn : n ∈ l) :
    without (f n) (l.map fun m => (f m, g m)) = (l.erase n).map fun m => (f m, g m) := by
  have hnodup : l.Nodup := hkeys.of_map f
  rw [hnodup.erase_eq_filter, without, List.filter_map]
  refine congrArg _ (List.filter_congr fun m hm => ?_)
  by_cases hmn : m = n
  · simp [hmn]
  · have hother : f m ≠ f n := fun h => hmn (List.inj_on_of_nodup_map hkeys hm hn h)
    simp [hmn, hother]

theorem foldl_disposeOne (disposables : List Nat) (s : MergeSink) :
    disposables.foldl disposeOne s = { s with
      sourceSubscription := s.sourceSubscription && 0 ∉ disposables
      iters := s.iters.filter fun iter => iter.1 ∉ disposables } := by
  induction disposables generalizing s with
  | nil => simp
  | cons disposable disposables ih =>
    rw [List.foldl_cons, ih, disposeOne]
    simp only [without, List.filter_filter, MergeSink.mk.injEq, and_true, true_and]
    constructor
    · cases s.sourceSubscription <;> simp [eq_comm]
    · refine List.filter_congr fun iter _ => ?_
      simp [Bool.and_comm]

variable {order : HashOrder Nat} {s : MergeSink} {law : MergeLaw}

/-- Everything that may still notify is in the group. -/
theorem dispose_ended {bag : Bag Nat} {entries : List Nat} {made : Nat} (hgroup : s.group = some bag)
    (hbag : bag.Holds ⟨made, (0 :: entries).map entry⟩) (hiters : ∀ iter ∈ s.iters, iter.1 ∈ entries) :
    (s.dispose order).Ended law.ended := by
  have hperm : (bag.dispatch order).Perm (0 :: entries) := by
    have hdispatch := hbag.dispatch order
    rwa [List.map_map, show Prod.snd ∘ entry = id from rfl, List.map_id] at hdispatch
  rw [dispose, hgroup]
  dsimp only
  rw [foldl_disposeOne]
  refine ⟨rfl, ?_, ?_, rfl, rfl, rfl⟩
  · simp [hperm.mem_iff]
  · refine List.filter_eq_nil_iff.mpr fun iter hiter => ?_
    have hmem : iter.1 ∈ bag.dispatch order := hperm.mem_iff.mpr (List.mem_cons_of_mem 0 (hiters iter hiter))
    simp [hmem]

theorem Live.keys (h : s.Live law) : ((0 :: law.inners).map UInt64.ofNat).Nodup := by
  obtain ⟨bag, _, hbag⟩ := h.group
  have hkeys := hbag.keys
  rwa [List.map_map, show Prod.fst ∘ entry = UInt64.ofNat from rfl] at hkeys

theorem Live.nodup (h : s.Live law) : (0 :: law.inners).Nodup := h.keys.of_map UInt64.ofNat

theorem Live.mem_inners (h : s.Live law) {iter : Nat × UInt64} (hiter : iter ∈ s.iters) :
    iter.1 ∈ law.inners := by
  rw [h.iters] at hiter
  obtain ⟨_, hmem, rfl⟩ := List.mem_map.mp hiter
  exact hmem

theorem Live.dispose (h : s.Live law) : (s.dispose order).Ended law.ended := by
  obtain ⟨bag, hgroup, hbag⟩ := h.group
  exact dispose_ended hgroup hbag fun iter hiter => h.mem_inners hiter

theorem Ended.dispose (h : s.Ended law) : (s.dispose order).Ended law.ended := by
  rw [MergeSink.dispose, h.group]
  exact ⟨rfl, h.sourceSubscription, h.iters, rfl, rfl, rfl⟩

theorem Live.forwardOn (h : s.Live law) (event : Event ε β) : s.forwardOn event = [event] := by
  simp only [MergeSink.forwardOn, h.disposed, Bool.false_eq_true, if_false]

theorem Live.checkCompleted (h : s.Live law) (order : HashOrder Nat) :
    (checkCompleted order s).2 = (law.completed : List (Event ε β)) ∧
      Represents (some (checkCompleted (ε := ε) (β := β) order s).1) law := by
  have hover : s.stopped = true ∧ s.activeCount = 0 ↔ law.source = false ∧ law.inners = [] := by
    rw [h.stopped, h.activeCount]
    simp
  rw [MergeSink.checkCompleted, MergeLaw.completed]
  by_cases hlaw : law.source = false ∧ law.inners = []
  · rw [if_pos (hover.mpr hlaw), if_pos hlaw]
    have hended : (s.dispose order).Ended law.ended := h.dispose
    refine ⟨h.forwardOn .completed, s.dispose order, rfl, .inr ?_⟩
    exact ⟨hended.group, hended.sourceSubscription, hended.iters, hended.disposed, hlaw.1, hlaw.2⟩
  · rw [if_neg (fun hs => hlaw (hover.mp hs)), if_neg hlaw]
    refine ⟨rfl, s, rfl, .inl ⟨h, ?_⟩⟩
    cases hsource : law.source with
    | true => exact .inl rfl
    | false => exact .inr fun hinners => hlaw ⟨hsource, hinners⟩

theorem Live.lookup (h : s.Live law) (iter : Nat) :
    s.iters.lookup iter = if iter ∈ law.inners then some (UInt64.ofNat iter) else none := by
  have hfst : (law.inners.map fun iter => (iter, UInt64.ofNat iter)).map Prod.fst = law.inners := by
    simp [Function.comp_def]
  rw [h.iters]
  by_cases hiter : iter ∈ law.inners
  · rw [if_pos hiter]
    refine lookup_of_mem ?_ (List.mem_map_of_mem hiter)
    rw [hfst]
    exact (List.nodup_cons.mp h.nodup).2
  · rw [if_neg hiter]
    refine lookup_of_not_mem ?_
    rwa [hfst]

/-- An inner sequence that completes leaves the group. -/
theorem Live.remove (h : s.Live law) {iter : Nat} (hiter : iter ∈ law.inners) :
    ∃ s', { s with iters := without iter s.iters }.remove (UInt64.ofNat iter) = some s' ∧
      s'.activeCount = s.activeCount ∧
      { s' with activeCount := s.activeCount - 1 }.Live { law with inners := law.inners.erase iter } := by
  obtain ⟨bag, hgroup, hbag⟩ := h.group
  have hzero : iter ≠ 0 := fun hz => (List.nodup_cons.mp h.nodup).1 (hz ▸ hiter)
  have hentry : entry iter ∈ (0 :: law.inners).map entry := List.mem_map_of_mem (List.mem_cons_of_mem 0 hiter)
  have hlookup := lookup_of_mem hbag.keys hentry
  obtain ⟨bag', hremove, hbag'⟩ := hbag.removeKey (UInt64.ofNat iter)
  rw [hlookup] at hremove
  have herase : without (UInt64.ofNat iter) ((0 :: law.inners).map entry) =
      (0 :: law.inners.erase iter).map entry := by
    have hwithout := without_map (g := id) h.keys (List.mem_cons_of_mem 0 hiter)
    rwa [List.erase_cons_tail (by simpa using hzero.symm)] at hwithout
  rw [herase] at hbag'
  have hiters : without iter s.iters = (law.inners.erase iter).map fun iter => (iter, UInt64.ofNat iter) := by
    have hnodup : (law.inners.map id).Nodup := by
      rw [List.map_id]
      exact (List.nodup_cons.mp h.nodup).2
    rw [h.iters]
    exact without_map (g := UInt64.ofNat) hnodup hiter
  have htwice : without iter (without iter s.iters) = without iter s.iters := by
    simp [without, List.filter_filter]
  rw [hiters] at htwice
  have hlength : (law.inners.erase iter).length + 1 = law.inners.length := by
    rw [List.length_erase_of_mem hiter]
    exact Nat.sub_add_cancel (List.length_pos_of_mem hiter)
  have hmade := h.made
  refine ⟨{ s with group := some bag', iters := without iter s.iters }.disposeOne iter, ?_, rfl, ?_⟩
  · simp only [MergeSink.remove, hgroup, hremove, Option.map_some]
  · refine ⟨⟨bag', rfl, hbag'⟩, ?_, h.subscriptions, ?_, ?_, h.stopped, h.disposed, ?_⟩
    · simp [disposeOne, hzero, h.sourceSubscription]
    · simp only [disposeOne, hiters, htwice]
    · rw [h.activeCount]
      simp only
      omega
    · simp only
      omega

theorem checkedInt_of_nat {n : Nat} (h : n < 2 ^ 63) : checkedInt n = some (n : Int) := by
  rw [checkedInt, if_pos]
  omega

theorem Live.iterOn (h : s.Live law) (order : HashOrder Nat) (hongoing : law.source = true ∨ law.inners ≠ [])
    (hroom : law.made < 2 ^ 63) {iter : Nat} (hiter : iter ∈ law.inners) (event : Event ε β) :
    ∃ s', s.iterOn order iter (UInt64.ofNat iter) event = some (s', (MergeLaw.inner.step law (iter, event)).2) ∧
      Represents (some s') (MergeLaw.inner.step law (iter, event)).1 := by
  simp only [MergeLaw.inner, if_pos hiter]
  cases event with
  | next value => exact ⟨s, by rw [MergeSink.iterOn, h.forwardOn], s, rfl, .inl ⟨h, hongoing⟩⟩
  | error error =>
    have hforward := h.forwardOn (Event.error error : Event ε β)
    obtain ⟨bag, hgroup, hbag⟩ := h.group
    have hended : ({ s with iters := without iter s.iters }.dispose order).Ended law.ended :=
      dispose_ended hgroup hbag fun other hother => h.mem_inners (List.mem_of_mem_filter hother)
    exact ⟨_, by rw [MergeSink.iterOn, hforward], _, rfl, .inr hended⟩
  | completed =>
    obtain ⟨s', hremove, hactive, hlive⟩ := h.remove hiter
    have hchecked : checkedInt (s'.activeCount - 1) = some (s.activeCount - 1) := by
      have hcount := hlive.activeCount
      have hmade := hlive.made
      simp only at hcount hmade
      rw [hactive, hcount]
      exact checkedInt_of_nat (by omega)
    obtain ⟨hout, hrepresents⟩ := hlive.checkCompleted order (ε := ε) (β := β)
    refine ⟨_, ?_, hrepresents⟩
    rw [MergeSink.iterOn, hremove, Option.bind_some, hchecked, Option.map_some, ← hout]

theorem inner_made (law : MergeLaw) (notification : Nat × Event ε β) :
    (MergeLaw.inner.step law notification).1.made = law.made := by
  obtain ⟨iter, event⟩ := notification
  by_cases hiter : iter ∈ law.inners
  · simp only [MergeLaw.inner, if_pos hiter]
    cases event <;> rfl
  · simp only [MergeLaw.inner, if_neg hiter]

theorem Represents.inner {state : Option MergeSink} (h : Represents state law) (order : HashOrder Nat)
    (hroom : law.made < 2 ^ 63) (notification : Nat × Event ε β) :
    ((MergeSink.inner order).step state notification).2 = (MergeLaw.inner.step law notification).2 ∧
      Represents ((MergeSink.inner order).step state notification).1
        (MergeLaw.inner.step law notification).1 := by
  obtain ⟨iter, event⟩ := notification
  obtain ⟨s, rfl, ⟨hlive, hongoing⟩ | hended⟩ := h
  · by_cases hiter : iter ∈ law.inners
    · obtain ⟨s', hon, hs'⟩ := hlive.iterOn order hongoing hroom hiter event
      simp only [MergeSink.inner, hlive.lookup, if_pos hiter, hon, true_and]
      exact hs'
    · simp only [MergeSink.inner, MergeLaw.inner, hlive.lookup, if_neg hiter, true_and]
      exact ⟨s, rfl, .inl ⟨hlive, hongoing⟩⟩
  · have hiter : iter ∉ law.inners := hended.inners ▸ List.not_mem_nil
    simp only [MergeSink.inner, MergeLaw.inner, hended.iters, List.lookup_nil, if_neg hiter, true_and]
    exact ⟨s, rfl, .inr hended⟩

theorem Represents.inners {state : Option MergeSink} (h : Represents state law) (order : HashOrder Nat)
    (hroom : law.made < 2 ^ 63) (notifications : List (Nat × Event ε β)) :
    ((MergeSink.inner order).steps state notifications).2 = (MergeLaw.inner.steps law notifications).2 ∧
      Represents ((MergeSink.inner order).steps state notifications).1
        (MergeLaw.inner.steps law notifications).1 := by
  have hstep (state : Option MergeSink) (law : MergeLaw) (notification : Nat × Event ε β)
      (h : Represents state law ∧ law.made < 2 ^ 63) :
      ((MergeSink.inner order).step state notification).2 = (MergeLaw.inner.step law notification).2 ∧
        Represents ((MergeSink.inner order).step state notification).1
          (MergeLaw.inner.step law notification).1 ∧
          (MergeLaw.inner.step law notification).1.made < 2 ^ 63 := by
    obtain ⟨hout, hnext⟩ := h.1.inner order h.2 notification
    exact ⟨hout, hnext, (inner_made law notification).symm ▸ h.2⟩
  obtain ⟨hout, hnext, _⟩ := (MergeSink.inner order).run_simulates MergeLaw.inner hstep ⟨h, hroom⟩ notifications
  exact ⟨hout, hnext⟩

theorem Live.subscribeInner (h : s.Live law) (order : HashOrder Nat) (hroom : law.made + 1 < 2 ^ 63)
    (source : List (Event ε β)) :
    (MergeSink.subscribeInner order { s with activeCount := (law.inners.length + 1 : Nat) } source).2 =
        (law.subscribeInner source).2 ∧
      Represents
        (MergeSink.subscribeInner order { s with activeCount := (law.inners.length + 1 : Nat) } source).1
        (law.subscribeInner source).1 := by
  obtain ⟨bag, hgroup, hbag⟩ := h.group
  have hroom' : law.made + 1 < 2 ^ 64 := by omega
  obtain ⟨hkey, hinsert⟩ := hbag.insert hroom' (law.made + 1)
  have hlive : Live { s with
      group := some (bag.insert (law.made + 1)).2
      subscriptions := law.made + 1
      iters := s.iters ++ [(law.made + 1, UInt64.ofNat (law.made + 1))]
      activeCount := (law.inners.length + 1 : Nat) }
      { law with inners := law.inners ++ [law.made + 1], made := law.made + 1 } := by
    refine ⟨⟨_, rfl, ?_⟩, h.sourceSubscription, rfl, ?_, ?_, h.stopped, h.disposed, ?_⟩
    · rw [← List.cons_append, List.map_append]
      exact hinsert
    · rw [h.iters, List.map_append]
      rfl
    · rw [List.length_append, List.length_singleton]
    · rw [List.length_append, List.length_singleton]
      exact Nat.succ_le_succ h.made
  have hopen : law.inners ++ [law.made + 1] ≠ [] := List.append_ne_nil_of_right_ne_nil _ (List.cons_ne_nil _ _)
  have hrepresents : Represents _ _ := ⟨_, rfl, .inl ⟨hlive, .inr hopen⟩⟩
  simp only [MergeSink.subscribeInner, MergeLaw.subscribeInner, hgroup, h.subscriptions, hkey]
  exact hrepresents.inners order hroom _

variable (selector : α → Except ε (List (Event ε β)))

theorem Live.on (h : s.Live law) (order : HashOrder Nat) (hsource : law.source = true) {event : Event ε α}
    (hroom : law.made + (if (MergeCall.on event : MergeCall ε α β).isElement then 1 else 0) < 2 ^ 63) :
    (s.on order selector event).2 = ((mergeLaw selector).step law (.on event)).2 ∧
      Represents (s.on order selector event).1 ((mergeLaw selector).step law (.on event)).1 := by
  simp only [mergeLaw, if_pos hsource]
  cases event with
  | next element =>
    simp only [MergeSink.on]
    cases selector element with
    | error error => exact ⟨h.forwardOn _, _, rfl, .inr h.dispose⟩
    | ok value =>
      have hmade : law.made + 1 < 2 ^ 63 := hroom
      have hchecked : checkedInt (s.activeCount + 1) = some ((law.inners.length + 1 : Nat) : Int) := by
        rw [h.activeCount]
        exact checkedInt_of_nat (Nat.lt_of_le_of_lt (Nat.succ_le_succ h.made) hmade)
      simp only [hchecked]
      exact h.subscribeInner order hmade value
  | error error =>
    obtain ⟨bag, hgroup, hbag⟩ := h.group
    have hended : ({ s with sourceSubscription := false }.dispose order).Ended law.ended :=
      dispose_ended hgroup hbag fun iter hiter => h.mem_inners hiter
    exact ⟨h.forwardOn _, _, rfl, .inr hended⟩
  | completed =>
    have hlive : Live { s with stopped := true, sourceSubscription := false } { law with source := false } :=
      ⟨h.group, rfl, h.subscriptions, h.iters, h.activeCount, rfl, h.disposed, h.made⟩
    exact hlive.checkCompleted order

theorem Represents.step {state : Option MergeSink} (h : Represents state law) (order : HashOrder Nat)
    {call : MergeCall ε α β} (hroom : law.made + (if call.isElement then 1 else 0) < 2 ^ 63) :
    ((mergeSink order selector).step state call).2 = ((mergeLaw selector).step law call).2 ∧
      Represents ((mergeSink order selector).step state call).1 ((mergeLaw selector).step law call).1 := by
  obtain ⟨s, rfl, hs⟩ := h
  cases call with
  | on event =>
    rcases hs with ⟨hlive, hongoing⟩ | hended
    · cases hsource : law.source with
      | true =>
        have hstep : (mergeSink order selector).step (some s) (.on event) = s.on order selector event :=
          if_pos (hlive.sourceSubscription.trans hsource)
        rw [hstep]
        exact hlive.on selector order hsource hroom
      | false =>
        simp only [mergeSink, mergeLaw, hlive.sourceSubscription, hsource]
        exact ⟨rfl, s, rfl, .inl ⟨hlive, hongoing⟩⟩
    · simp only [mergeSink, mergeLaw, hended.sourceSubscription, hended.source]
      exact ⟨rfl, s, rfl, .inr hended⟩
  | inner iter event => exact Represents.inner ⟨s, rfl, hs⟩ order hroom (iter, event)
  | dispose =>
    refine ⟨rfl, _, rfl, .inr ?_⟩
    rcases hs with ⟨hlive, _⟩ | hended
    · exact hlive.dispose
    · exact hended.dispose

theorem run_represents : Represents (some run) {} := by
  have hempty : ({} : Bag Nat).Holds {} := by
    obtain ⟨bag, hbag, hholds⟩ := Bag.empty_represents (α := Nat)
    exact Option.some.inj hbag ▸ hholds
  obtain ⟨_, hinsert⟩ := hempty.insert (Nat.two_pow_pos 64) 0
  refine ⟨run, rfl, .inl ⟨⟨⟨_, rfl, hinsert⟩, rfl, rfl, rfl, rfl, rfl, rfl, Nat.le_refl 0⟩, .inl rfl⟩⟩

end MergeSink

theorem MergeLaw.steps_made (law : MergeLaw) (notifications : List (Nat × Event ε β)) :
    (MergeLaw.inner.steps law notifications).1.made = law.made := by
  induction notifications generalizing law with
  | nil => rfl
  | cons notification notifications ih =>
    rw [Machine.steps_cons]
    exact (ih _).trans (MergeSink.inner_made law notification)

theorem mergeLaw_made (selector : α → Except ε (List (Event ε β))) (law : MergeLaw) (call : MergeCall ε α β) :
    ((mergeLaw selector).step law call).1.made ≤ law.made + if call.isElement then 1 else 0 := by
  cases call with
  | on event =>
    by_cases hsource : law.source = true
    · simp only [mergeLaw, if_pos hsource]
      cases event with
      | next element =>
        dsimp only
        cases selector element with
        | error error => exact Nat.le_succ law.made
        | ok value => exact Nat.le_of_eq (MergeLaw.steps_made _ _)
      | error error => exact Nat.le_refl _
      | completed => exact Nat.le_refl _
    · simp only [mergeLaw, if_neg hsource]
      exact Nat.le_add_right _ _
  | inner iter event => exact Nat.le_of_eq (MergeSink.inner_made law (iter, event))
  | dispose => exact Nat.le_refl _

/-- Whatever the source, the inner sequences and the subscriber do, the sink of
`flatMap` forwards what the open inner sequences say; its count is right, its group
holds exactly what may still notify, and it lets go of it at the end. -/
theorem flatMap_sink_merges (order : HashOrder Nat) (selector : α → Except ε (List (Event ε β)))
    (calls : List (MergeCall ε α β)) (h : calls.countP MergeCall.isElement < 2 ^ 63) :
    (mergeSink order selector).outputs (some .run) calls = (mergeLaw selector).outputs {} calls ∧
      ∃ s, (mergeSink order selector).run (some .run) calls = some s ∧
        s.sourceSubscription = ((mergeLaw selector).run {} calls).source ∧
        s.iters.map Prod.fst = ((mergeLaw selector).run {} calls).inners ∧
        (s.group = none ↔ s.sourceSubscription = false ∧ s.iters = []) ∧
        ∀ bag, s.group = some bag → s.activeCount = s.iters.length ∧ bag.count = s.iters.length + 1 := by
  have hstep (state : Option MergeSink) (law : MergeLaw) (call : MergeCall ε α β)
      (hsink : MergeSink.Represents state law)
      (hroom : law.made + (if call.isElement then 1 else 0) ≤ 2 ^ 63 - 1) :
      ((mergeSink order selector).step state call).2 = ((mergeLaw selector).step law call).2 ∧
        MergeSink.Represents ((mergeSink order selector).step state call).1
          ((mergeLaw selector).step law call).1 :=
    hsink.step selector order (by omega)
  have hlimit : ({} : MergeLaw).made + calls.countP MergeCall.isElement ≤ 2 ^ 63 - 1 := by
    simp only
    omega
  obtain ⟨houtputs, s, hs, hstate⟩ := (mergeSink order selector).run_simulates_within (mergeLaw selector)
    (mergeLaw_made selector) hstep MergeSink.run_represents calls hlimit
  refine ⟨houtputs, s, hs, ?_⟩
  rcases hstate with ⟨hlive, hongoing⟩ | hended
  · obtain ⟨bag, hgroup, hbag⟩ := hlive.group
    refine ⟨hlive.sourceSubscription, ?_, ?_, fun bag' hbag' => ?_⟩
    · rw [hlive.iters, List.map_map]
      exact List.map_id _
    · rw [hgroup, hlive.sourceSubscription, hlive.iters, List.map_eq_nil_iff]
      constructor
      · intro hnone
        cases hnone
      · rintro ⟨hsource, hinners⟩
        rcases hongoing with hsource' | hinners'
        · rw [hsource] at hsource'
          cases hsource'
        · exact (hinners' hinners).elim
    · obtain rfl := Option.some.inj (hgroup.symm.trans hbag')
      have hcount := hbag.count_eq
      rw [List.length_map, List.length_cons] at hcount
      rw [hlive.iters, List.length_map]
      exact ⟨hlive.activeCount, hcount⟩
  · refine ⟨hended.sourceSubscription.trans hended.source.symm, ?_, ?_, fun bag hbag => ?_⟩
    · rw [hended.iters, hended.inners]
      rfl
    · exact ⟨fun _ => ⟨hended.sourceSubscription, hended.iters⟩, fun _ => hended.group⟩
    · rw [hended.group] at hbag
      cases hbag

/-- The sequence is over when the source and both inner sequences are. -/
theorem flatMap_sink_of_two_inners :
    (mergeSink ⟨id, fun values => .refl values⟩ fun element : Nat => .ok [Event.next element]).outputs
      (some .run) [.on (.next 3), .on (.next 4), .inner 2 (.completed : Event Unit Nat), .on .completed,
        .inner 2 (.next 5), .inner 1 (.next 6), .inner 1 .completed] =
      [.next 3, .next 4, .next 6, .completed] :=
  (flatMap_sink_merges ⟨id, fun values => .refl values⟩ (fun element => .ok [.next element]) _
    (by decide)).1.trans (by decide)

end Rx
