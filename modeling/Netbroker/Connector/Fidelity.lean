import Netbroker.Connector.Turns

/-!
# What `receiveFromGroup` hands out of a stream

A call that returns a value `≥ 0` should hand out the frame it took off the stream
last, and a wanted frame should not leave the stream in any other way. `Faithful`
says so, call by call; `Clear` says, frame by frame, when the empty frames of a
stream do no harm. The two are equivalent on every stream of regular frames.

A call takes turns until one returns, and each turn takes frames off the front or looks at the
next. So whole calls are settled turn by turn, and the stream by induction on the calls.
-/

namespace Netbroker

open Spread

variable (l : Listener)

/-- No frame of the stream is lost or mixed with its neighbour. -/
def Clear : List Frame → Bool
  | [] => true
  | [f] => f.body ≠ [] || !wanted l f
  | f :: g :: rest =>
      if f.body ≠ [] then Clear (g :: rest)
      else if takesBoth f g then
        !wanted l f && (discards l g || g.body = [] && (g.groups ≠ [] || f.groupName = []))
          && Clear rest
      else
        (if returnsOnPeek l f g then twins l f g else !wanted l f) && Clear (g :: rest)

/-- What a returning call may do with the frames it has taken off the stream. -/
def Handed (ret : Int) (b : Buffer) (taken : List Frame) : Prop :=
  if 0 ≤ ret then
    ∃ before f, taken = before ++ [f] ∧ Carries l b f ∧ ∀ g ∈ before, wanted l g = false
  else ∀ g ∈ taken, wanted l g = false

/-- Every call on the stream hands out what it took off last if it returns a value
`≥ 0`, and no call takes another wanted frame off the stream. -/
inductive Faithful : List Frame → Prop
  | waits {stream : List Frame} (call : receiveFromGroup l stream = .waits)
      (none_wanted : ∀ f ∈ stream, wanted l f = false) : Faithful stream
  | returns {stream taken rest : List Frame} {ret : Int} {b : Buffer}
      (call : receiveFromGroup l stream = .returned ret b rest)
      (split : stream = taken ++ rest) (handed : Handed l ret b taken)
      (others : Faithful rest) : Faithful stream

/-- A turn that does not wait takes a frame off, or two. -/
def Outcome.Takes (stream : List Frame) : Outcome → Prop
  | .waits => True
  | .again _ rest | .returned _ _ rest => ∃ taken, taken ≠ [] ∧ stream = taken ++ rest

theorem turn_takes_some (slots : Slots) {stream : List Frame}
    (hregular : ∀ f ∈ stream, Regular f) : (turn l slots stream).Takes stream := by
  match stream with
  | [] => trivial
  | [f] =>
      have hf := hregular f (by simp)
      by_cases hbody : f.body = []
      · rw [turn_empty_last l slots hf hbody]
        trivial
      · obtain ⟨-, slots', h⟩ | ⟨-, ret, b, h, -⟩ := turn_full l slots [] hf hbody
        all_goals rw [h]; exact ⟨[f], by simp, rfl⟩
  | f :: g :: rest =>
      have hf := hregular f (by simp)
      have hg := hregular g (by simp)
      by_cases hbody : f.body = []
      · cases htakes : takesBoth f g with
        | true =>
            obtain ⟨-, slots', h⟩ | ⟨-, ret, b, h, -⟩ := turn_takes l slots rest hf hg hbody htakes
            all_goals rw [h]; exact ⟨[f, g], by simp, rfl⟩
        | false =>
            obtain ⟨-, slots', h⟩ | ⟨ret, b, h, -⟩ := turn_peeks l slots rest hf hg hbody htakes
            all_goals rw [h]; exact ⟨[f], by simp, rfl⟩
      · obtain ⟨-, slots', h⟩ | ⟨-, ret, b, h, -⟩ := turn_full l slots (g :: rest) hf hbody
        all_goals rw [h]; exact ⟨[f], by simp, rfl⟩

variable {l}

/-- A turn that goes on leaves a shorter stream of the same kind. -/
theorem turn_again {slots slots' : Slots} {stream rest : List Frame}
    (hregular : ∀ f ∈ stream, Regular f) (h : turn l slots stream = .again slots' rest) :
    rest.length < stream.length ∧ ∀ f ∈ rest, Regular f := by
  have htakes := turn_takes_some l slots hregular
  rw [h] at htakes
  obtain ⟨taken, hne, rfl⟩ := htakes
  refine ⟨?_, fun f hf => hregular f (by simp [hf])⟩
  have hpos := List.length_pos_iff.mpr hne
  rw [List.length_append]
  omega

/-- More turns than frames make no difference. -/
theorem turns_enough {n : Nat} {slots : Slots} {stream : List Frame}
    (hregular : ∀ f ∈ stream, Regular f) (hn : stream.length < n) :
    turns l n slots stream = turns l (stream.length + 1) slots stream := by
  induction hlength : stream.length using Nat.strong_induction_on generalizing n slots stream with
  | _ length ih =>
      obtain ⟨n, rfl⟩ : ∃ m, n = m + 1 := ⟨n - 1, by omega⟩
      simp only [turns]
      cases hturn : turn l slots stream with
      | waits => rfl
      | returned => rfl
      | again slots' rest =>
          obtain ⟨hshorter, hrest⟩ := turn_again hregular hturn
          exact (ih rest.length (by omega) hrest (by omega) rfl).trans
            (ih rest.length (by omega) hrest (by omega) rfl).symm

/-- A call whose first turn goes on is the call from the next turn. -/
theorem turns_again {slots slots' : Slots} {stream rest : List Frame}
    (hregular : ∀ f ∈ stream, Regular f) (h : turn l slots stream = .again slots' rest) :
    turns l (stream.length + 1) slots stream = turns l (rest.length + 1) slots' rest := by
  obtain ⟨hshorter, hrest⟩ := turn_again hregular h
  rw [turns, h]
  exact turns_enough hrest hshorter

/-- A call ends: it waits, or returns having taken something off the stream. -/
theorem turns_takes (slots : Slots) {stream : List Frame} (hregular : ∀ f ∈ stream, Regular f) :
    turns l (stream.length + 1) slots stream = .waits ∨
      ∃ ret b taken rest, taken ≠ [] ∧ stream = taken ++ rest ∧
        turns l (stream.length + 1) slots stream = .returned ret b rest := by
  induction hlength : stream.length using Nat.strong_induction_on generalizing slots stream with
  | _ length ih =>
      have htakes := turn_takes_some l slots hregular
      cases hturn : turn l slots stream with
      | waits => exact .inl (by rw [turns, hturn])
      | returned ret b rest =>
          rw [hturn] at htakes
          obtain ⟨taken, hne, hsplit⟩ := htakes
          exact .inr ⟨ret, b, taken, rest, hne, hsplit, by rw [turns, hturn]⟩
      | again slots' rest =>
          obtain ⟨hshorter, hrest⟩ := turn_again hregular hturn
          rw [hturn] at htakes
          obtain ⟨taken, hne, hsplit⟩ := htakes
          rw [← hlength, turns_again hregular hturn]
          obtain hwaits | ⟨ret, b, taken', rest', hne', hsplit', hreturned⟩ :=
            ih rest.length (by omega) slots' hrest rfl
          · exact .inl hwaits
          · have hwhole : stream = taken ++ taken' ++ rest' := by
              rw [hsplit, hsplit', List.append_assoc]
            exact .inr ⟨ret, b, taken ++ taken', rest', by simp [hne], hwhole, hreturned⟩

/-- The outcome of a call on the stream, and what follows it, is as it should be. -/
def Served (l : Listener) (stream : List Frame) : Outcome → Prop
  | .waits => ∀ f ∈ stream, wanted l f = false
  | .again .. => False
  | .returned ret b rest => ∃ taken, stream = taken ++ rest ∧ Handed l ret b taken ∧ Faithful l rest

theorem faithful_iff {stream : List Frame} :
    Faithful l stream ↔ Served l stream (receiveFromGroup l stream) := by
  constructor
  · intro h
    cases h with
    | waits call none_wanted => rw [call]; exact none_wanted
    | returns call split handed others => rw [call]; exact ⟨_, split, handed, others⟩
  · intro h
    cases call : receiveFromGroup l stream with
    | waits => exact .waits call (by rwa [call] at h)
    | again => rw [call] at h; exact h.elim
    | returned ret b rest =>
        rw [call] at h
        obtain ⟨taken, split, handed, others⟩ := h
        exact .returns call split handed others

theorem handed_append {ret : Int} {b : Buffer} {taken taken' : List Frame} (hne : taken' ≠ []) :
    Handed l ret b (taken ++ taken') ↔
      (∀ f ∈ taken, wanted l f = false) ∧ Handed l ret b taken' := by
  unfold Handed
  by_cases hret : 0 ≤ ret
  · simp only [hret, if_true]
    obtain ⟨front, last, rfl⟩ := (List.eq_nil_or_concat taken').resolve_left hne
    simp only [List.concat_eq_append, ← List.append_assoc]
    constructor
    · rintro ⟨before, f, hsplit, hcarries, hbefore⟩
      obtain ⟨rfl, hlast⟩ := List.append_inj' hsplit rfl
      obtain rfl := List.singleton_inj.mp hlast
      exact ⟨fun g hg => hbefore g (by simp [hg]), front, last, rfl, hcarries,
        fun g hg => hbefore g (by simp [hg])⟩
    · rintro ⟨htaken, before, f, hsplit, hcarries, hbefore⟩
      obtain ⟨rfl, hlast⟩ := List.append_inj' hsplit rfl
      obtain rfl := List.singleton_inj.mp hlast
      refine ⟨taken ++ front, last, rfl, hcarries, fun g hg => ?_⟩
      rcases List.mem_append.mp hg with h | h
      · exact htaken g h
      · exact hbefore g h
  · simp only [hret, if_false, List.mem_append, or_imp, forall_and]

@[simp] theorem handed_singleton {ret : Int} {b : Buffer} {f : Frame} :
    Handed l ret b [f] ↔ if 0 ≤ ret then Carries l b f else wanted l f = false := by
  rw [Handed]
  by_cases hret : 0 ≤ ret
  · simp only [hret, if_true]
    constructor
    · rintro ⟨before, g, hsplit, hcarries, -⟩
      have hsplit' : [] ++ [f] = before ++ [g] := hsplit
      obtain ⟨rfl, hlast⟩ := List.append_inj' hsplit' rfl
      obtain rfl := List.singleton_inj.mp hlast
      exact hcarries
    · exact fun h => ⟨[], f, rfl, h, by simp⟩
  · simp [hret]

/-- What the turns before the last one take off must not be wanted. -/
theorem served_again {slots slots' : Slots} {stream rest : List Frame} (taken : List Frame)
    (hregular : ∀ f ∈ stream, Regular f) (hsplit : stream = taken ++ rest)
    (h : turn l slots stream = .again slots' rest) :
    Served l stream (turns l (stream.length + 1) slots stream) ↔
      (∀ f ∈ taken, wanted l f = false) ∧
        Served l rest (turns l (rest.length + 1) slots' rest) := by
  rw [turns_again hregular h]
  obtain hwaits | ⟨ret, b, taken', rest', hne, hsplit', hreturned⟩ :=
    turns_takes (l := l) slots' (turn_again hregular h).2
  · rw [hwaits]
    simp only [Served, hsplit, List.mem_append, or_imp, forall_and]
  · rw [hreturned]
    simp only [Served, hsplit, hsplit']
    constructor
    · rintro ⟨whole, heq, handed, others⟩
      obtain rfl : taken ++ taken' = whole :=
        List.append_cancel_right ((List.append_assoc ..).trans heq)
      obtain ⟨htaken, hlast⟩ := (handed_append hne).mp handed
      exact ⟨htaken, taken', rfl, hlast, others⟩
    · rintro ⟨htaken, last, heq, handed, others⟩
      obtain rfl : taken' = last := List.append_cancel_right heq
      exact ⟨taken ++ taken', (List.append_assoc ..).symm,
        (handed_append hne).mpr ⟨htaken, handed⟩, others⟩

/-- A call whose first turn returns. -/
theorem served_returned {slots : Slots} {stream rest : List Frame} {ret : Int} {b : Buffer}
    (taken : List Frame) (h : turn l slots stream = .returned ret b rest)
    (hsplit : stream = taken ++ rest) :
    Served l stream (turns l (stream.length + 1) slots stream) ↔
      Handed l ret b taken ∧ Faithful l rest := by
  rw [turns, h]
  simp only [Served]
  constructor
  · rintro ⟨whole, heq, handed, others⟩
    obtain rfl : taken = whole := List.append_cancel_right (hsplit.symm.trans heq)
    exact ⟨handed, others⟩
  · exact fun ⟨handed, others⟩ => ⟨taken, hsplit, handed, others⟩

theorem clear_cons_of_body {f : Frame} (rest : List Frame) (hbody : f.body ≠ []) :
    Clear l (f :: rest) = Clear l rest := by
  cases rest <;> simp [Clear, hbody]

/-- The exact condition, for a call in any turn and all calls after it. -/
theorem served_iff_clear {slots : Slots} {stream : List Frame}
    (hregular : ∀ f ∈ stream, Regular f) :
    Served l stream (turns l (stream.length + 1) slots stream) ↔ Clear l stream = true := by
  induction hlength : stream.length using Nat.strong_induction_on generalizing slots stream with
  | _ length ih =>
    subst hlength
    -- the next turns of this call, and the calls after it, see a shorter stream
    have next : ∀ {slots : Slots} {rest : List Frame}, rest.length < stream.length →
        (∀ f ∈ rest, Regular f) →
          (Served l rest (turns l (rest.length + 1) slots rest) ↔ Clear l rest = true) :=
      fun hshorter hrest => ih _ hshorter hrest rfl
    have later : ∀ {rest : List Frame}, rest.length < stream.length → (∀ f ∈ rest, Regular f) →
        (Faithful l rest ↔ Clear l rest = true) :=
      fun hshorter hrest => faithful_iff.trans (next hshorter hrest)
    clear ih
    cases stream with
    | nil => simp [turns, turn, Served, Clear]
    | cons f rest =>
      have hf := hregular f (by simp)
      have hrest : ∀ f ∈ rest, Regular f := fun f' hf' => hregular f' (by simp [hf'])
      by_cases hbody : f.body = []
      · cases rest with
        | nil =>
          rw [turns, turn_empty_last l slots hf hbody]
          simp [Served, Clear, hbody]
        | cons g rest =>
          have hg := hregular g (by simp)
          have hrest' : ∀ f ∈ rest, Regular f := fun f' hf' => hregular f' (by simp [hf'])
          have hshorter : rest.length < (f :: g :: rest).length := by
            simp only [List.length_cons]
            omega
          cases htakes : takesBoth f g with
          | true =>
            obtain ⟨hdiscards, slots', h⟩ | ⟨hkeeps, ret, b, h, hret, hcarries⟩ :=
              turn_takes l slots rest hf hg hbody htakes
            · have hunwanted : wanted l g = false := by simp [wanted, hdiscards]
              rw [served_again [f, g] hregular rfl h, next hshorter hrest']
              simp [Clear, hbody, htakes, hdiscards, hunwanted]
            · rw [served_returned ([f] ++ [g]) h rfl, later hshorter hrest',
                handed_append (by simp), handed_singleton]
              have hlast : (if 0 ≤ ret then Carries l b g else wanted l g = false) ↔
                  g.body = [] ∧ (g.groups ≠ [] ∨ f.groupName = []) := by
                rw [← hcarries]
                split
                · simp [*]
                · rename_i hnegative
                  simp [hnegative, hret.resolve_left hnegative]
              rw [hlast]
              simp [Clear, hbody, htakes, hkeeps]
          | false =>
            obtain ⟨hpeek, slots', h⟩ | ⟨ret, b, h, hreply⟩ :=
              turn_peeks l slots rest hf hg hbody htakes
            · rw [served_again [f] hregular rfl h, next (by simp) hrest]
              simp [Clear, hbody, htakes, hpeek]
            · rw [served_returned [f] h rfl, later (by simp) hrest, handed_singleton]
              rcases hreply with ⟨hpeek, hret, hcarries⟩ | ⟨hpeek, hret⟩
              · simp [Clear, hbody, htakes, hpeek, hret, hcarries]
              · simp [Clear, hbody, htakes, hpeek, Int.not_le.mpr hret]
      · rw [clear_cons_of_body rest hbody]
        obtain ⟨hdiscards, slots', h⟩ | ⟨-, ret, b, h, hret, hcarries⟩ :=
          turn_full l slots rest hf hbody
        · rw [served_again [f] hregular rfl h, next (by simp) hrest]
          simp [wanted, hdiscards]
        · rw [served_returned [f] h rfl, later (by simp) hrest]
          simp [hret, hcarries]

/-- The calls on a stream that return, up to the one that waits for good. -/
inductive Calls (l : Listener) : List Frame → List (Int × Buffer) → Prop
  | waits {stream : List Frame} (call : receiveFromGroup l stream = .waits) : Calls l stream []
  | returns {stream rest : List Frame} {ret : Int} {b : Buffer} {results : List (Int × Buffer)}
      (call : receiveFromGroup l stream = .returned ret b rest) (others : Calls l rest results) :
      Calls l stream ((ret, b) :: results)

/-- The results `≥ 0` carry messages of the stream, in its order, and among these are
all the wanted ones. -/
def InOrder (l : Listener) (stream : List Frame) : Prop :=
  ∃ results messages, Calls l stream results ∧ messages.Sublist stream ∧
    List.Forall₂ (fun r f => Carries l r.2 f) (results.filter fun r => 0 ≤ r.1) messages ∧
      messages.filter (wanted l) = stream.filter (wanted l)

theorem filter_wanted_eq_nil {frames : List Frame} (h : ∀ f ∈ frames, wanted l f = false) :
    frames.filter (wanted l) = [] := by
  rw [List.filter_eq_nil_iff]
  intro f hf
  simp [h f hf]

theorem Faithful.inOrder {stream : List Frame} (h : Faithful l stream) : InOrder l stream := by
  induction h with
  | waits call none_wanted =>
      refine ⟨[], [], .waits call, List.nil_sublist _, .nil, ?_⟩
      rw [filter_wanted_eq_nil none_wanted, List.filter_nil]
  | @returns stream taken rest ret b call split handed _ ih =>
      obtain ⟨results, messages, calls, hsub, hcarry, hwanted⟩ := ih
      rw [Handed] at handed
      subst split
      split at handed
      · rename_i hret
        obtain ⟨before, f, rfl, hf, hbefore⟩ := handed
        refine ⟨_, f :: messages, .returns call calls, ?_, ?_, ?_⟩
        · rw [List.append_assoc, List.singleton_append]
          exact (hsub.cons_cons f).trans (List.sublist_append_right ..)
        · rw [List.filter_cons_of_pos (by simpa using hret)]
          exact .cons hf hcarry
        · rw [List.append_assoc, List.filter_append, filter_wanted_eq_nil hbefore,
            List.singleton_append, List.nil_append, List.filter_cons, List.filter_cons, hwanted]
      · rename_i hret
        refine ⟨_, messages, .returns call calls, hsub.trans (List.sublist_append_right ..), ?_, ?_⟩
        · rw [List.filter_cons_of_neg (by simpa using hret)]
          exact hcarry
        · rw [List.filter_append, filter_wanted_eq_nil handed, List.nil_append, hwanted]

/-- A connection named `#ab` that keeps its echoes and drops membership messages. -/
def demoListener : Listener :=
  { privateGroup := [35, 97, 98], connectionName := [35, 97, 98], dropEcho := false
    dropMembership := true }

/-- Another client's message to the group `g`. -/
def demoFrame (body : List UInt8) : Frame :=
  { type := safeMess, oldType := 0, sender := [35, 99], groups := [[103]], messType := 7, body }

theorem demoFrame_regular (body : List UInt8) : Regular (demoFrame body) :=
  ⟨by simp [demoFrame, maxGroupArraySize], fun _ => by simp [demoFrame, Frame.groupName]⟩

/-- **Frame fidelity.** The calls on a stream serve it faithfully exactly when it is
clear, and then what they hand out is the wanted messages in stream order. -/
theorem frame_fidelity (l : Listener) {stream : List Frame} (hregular : ∀ f ∈ stream, Regular f) :
    (Faithful l stream ↔ Clear l stream = true) ∧ (Faithful l stream → InOrder l stream) :=
  ⟨faithful_iff.trans (served_iff_clear hregular), Faithful.inOrder⟩

theorem frame_fidelity_with_bodies :
    Faithful demoListener [demoFrame [1, 2], demoFrame [3]] ∧
      InOrder demoListener [demoFrame [1, 2], demoFrame [3]] := by
  have hregular : ∀ f ∈ [demoFrame [1, 2], demoFrame [3]], Regular f := by
    simp [demoFrame_regular]
  have hfidelity := frame_fidelity demoListener hregular
  have hfaithful := hfidelity.1.mpr (by decide)
  exact ⟨hfaithful, hfidelity.2 hfaithful⟩

/-- An empty message of another client is taken by the first call and never handed out. -/
theorem empty_message_lost : (∀ f ∈ [demoFrame []], Regular f) ∧
    ¬ InOrder demoListener [demoFrame []] := by
  refine ⟨by simp [demoFrame_regular], ?_⟩
  rintro ⟨results, messages, calls, -, hcarry, hwanted⟩
  have hwaits : receiveFromGroup demoListener [demoFrame []] = .waits := by decide
  cases calls with
  | waits =>
      cases hcarry
      exact absurd hwanted (by decide)
  | returns call => rw [hwaits] at call; cases call

end Netbroker
