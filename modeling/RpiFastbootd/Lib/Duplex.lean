import Mathlib.Data.List.Induction
import Mathlib.Tactic.Common

/-!
# Two parties that take turns

A client and a server send each other messages over two queues, each at its own pace.  A conversation
says whose turn it is and how a message moves it on.  Each party keeps to it as far as it can see:
it sends only in its turn and what may be sent then, as long as what it receives could be sent by the
other one (`Keeps`).

Two such parties stay in step, however their calls are interleaved (`Conversation.lockstep`): one of the
queues is empty, both have seen the same messages up to what is in the other queue, and nobody
receives a message that may not come.
-/

namespace RpiFastbootd

inductive Party
  | client
  | server
  deriving DecidableEq, Repr

/-- Whose turn it is, and how a message that may be sent moves on. -/
structure Conversation (P M : Type) where
  turn : P → Party
  next : P → M → Option P

/-- What a party does with a message. -/
inductive Exchange (M : Type)
  | sent (m : M)
  | received (m : M)
  deriving DecidableEq, Repr

def Exchange.message {M : Type} : Exchange M → M
  | sent m => m
  | received m => m

/-- The messages that a party has seen. -/
def talk {M : Type} (t : List (Exchange M)) : List M := t.map Exchange.message

/-- What a client and a server have done, and what is still on the way to the server and to the
client. -/
inductive Linked {M : Type} :
    List (Exchange M) → List (Exchange M) → (up down : List M) → Prop
  | start : Linked [] [] [] []
  | clientSends {c s : List (Exchange M)} {up down : List M} (h : Linked c s up down) (m : M) :
    Linked (c ++ [.sent m]) s (up ++ [m]) down
  | clientReceives {c s : List (Exchange M)} {up down : List M} {m : M}
    (h : Linked c s up (m :: down)) : Linked (c ++ [.received m]) s up down
  | serverSends {c s : List (Exchange M)} {up down : List M} (h : Linked c s up down) (m : M) :
    Linked c (s ++ [.sent m]) up (down ++ [m])
  | serverReceives {c s : List (Exchange M)} {up down : List M} {m : M}
    (h : Linked c s (m :: up) down) : Linked c (s ++ [.received m]) up down

/-- What the other party does with the message. -/
def Exchange.mirror {M : Type} : Exchange M → Exchange M
  | sent m => received m
  | received m => sent m

/-- Each message may be received as soon as it is sent. -/
theorem Linked.mirror {M : Type} (t : List (Exchange M)) :
    Linked t (t.map Exchange.mirror) [] [] := by
  induction t using List.reverseRecOn with
  | nil => exact .start
  | append_singleton t e ih =>
    rw [List.map_append]
    cases e with
    | sent m => exact .serverReceives (ih.clientSends m)
    | received m => exact .clientReceives (ih.serverSends m)

namespace Conversation

variable {P M : Type} (C : Conversation P M) {me you : Party} {p q r : P} {m : M}
  {t u : List (Exchange M)} {l out inn : List M}

/-- The messages come from one party, and may be sent one after the other. -/
def Speaks (who : Party) : P → List M → P → Prop
  | p, [], q => p = q
  | p, m :: l, q => C.turn p = who ∧ ∃ r, C.next p m = some r ∧ Speaks who r l q

/-- The party has sent in its turn and received in that of the other one, and every message could be
sent. -/
def Goes (me : Party) : P → List (Exchange M) → P → Prop
  | p, [], q => p = q
  | p, .sent m :: t, q => C.turn p = me ∧ ∃ r, C.next p m = some r ∧ Goes me r t q
  | p, .received m :: t, q => C.turn p ≠ me ∧ ∃ r, C.next p m = some r ∧ Goes me r t q

/-- The party keeps to the conversation as long as the other one does. -/
def Keeps (me : Party) : P → List (Exchange M) → Prop
  | _, [] => True
  | p, .sent m :: t => C.turn p = me ∧ ∃ r, C.next p m = some r ∧ Keeps me r t
  | p, .received m :: t => C.turn p ≠ me → ∀ r, C.next p m = some r → Keeps me r t

variable {C}

theorem speaks_append {who : Party} {l' : List M} :
    C.Speaks who p (l ++ l') r ↔ ∃ q, C.Speaks who p l q ∧ C.Speaks who q l' r := by
  induction l generalizing p with
  | nil => exact ⟨fun h => ⟨p, rfl, h⟩, fun ⟨q, hq, h⟩ => by cases hq; exact h⟩
  | cons m l ih =>
    constructor
    · rintro ⟨hturn, p', hnext, h⟩
      obtain ⟨q, hq, hr⟩ := ih.1 h
      exact ⟨q, ⟨hturn, p', hnext, hq⟩, hr⟩
    · rintro ⟨q, ⟨hturn, p', hnext, hq⟩, hr⟩
      exact ⟨hturn, p', hnext, ih.2 ⟨q, hq, hr⟩⟩

theorem goes_append : C.Goes me p (t ++ u) r ↔ ∃ q, C.Goes me p t q ∧ C.Goes me q u r := by
  induction t generalizing p with
  | nil => exact ⟨fun h => ⟨p, rfl, h⟩, fun ⟨q, hq, h⟩ => by cases hq; exact h⟩
  | cons e t ih =>
    cases e <;> constructor
    all_goals first
      | rintro ⟨hturn, p', hnext, h⟩
        obtain ⟨q, hq, hr⟩ := ih.1 h
        exact ⟨q, ⟨hturn, p', hnext, hq⟩, hr⟩
      | rintro ⟨q, ⟨hturn, p', hnext, hq⟩, hr⟩
        exact ⟨hturn, p', hnext, ih.2 ⟨q, hq, hr⟩⟩

theorem Keeps.of_append (h : C.Keeps me p (t ++ u)) : C.Keeps me p t := by
  induction t generalizing p with
  | nil => trivial
  | cons e t ih =>
    cases e with
    | sent m =>
      obtain ⟨hturn, r, hnext, h⟩ := h
      exact ⟨hturn, r, hnext, ih h⟩
    | received m => exact fun hturn r hnext => ih (h hturn r hnext)

/-- What comes later is judged by where the conversation has come to. -/
theorem keeps_append :
    C.Keeps me p (t ++ u) ↔ C.Keeps me p t ∧ ∀ q, C.Goes me p t q → C.Keeps me q u := by
  constructor
  · refine fun h => ⟨h.of_append, fun q hq => ?_⟩
    induction t generalizing p with
    | nil =>
      cases hq
      exact h
    | cons e t ih =>
      cases e with
      | sent m =>
        obtain ⟨-, r, hnext, h⟩ := h
        obtain ⟨-, r', hnext', hq⟩ := hq
        obtain rfl := Option.some.inj (hnext.symm.trans hnext')
        exact ih h hq
      | received m =>
        obtain ⟨hturn, r, hnext, hq⟩ := hq
        exact ih (h hturn r hnext) hq
  · rintro ⟨h, hrest⟩
    induction t generalizing p with
    | nil => exact hrest p rfl
    | cons e t ih =>
      cases e with
      | sent m =>
        obtain ⟨hturn, r, hnext, h⟩ := h
        exact ⟨hturn, r, hnext, ih h fun q hq => hrest q ⟨hturn, r, hnext, hq⟩⟩
      | received m =>
        exact fun hturn r hnext => ih (h hturn r hnext) fun q hq => hrest q ⟨hturn, r, hnext, hq⟩

/-- The party keeps to the conversation, and this comes to places in `P` only. -/
def Within (C : Conversation P M) (me : Party) (p : P) (t : List (Exchange M)) (Q : P → Prop) :
    Prop := C.Keeps me p t ∧ ∀ q, C.Goes me p t q → Q q

section

variable {Q R : P → Prop}

theorem within_nil (h : Q p) : C.Within me p [] Q := ⟨trivial, fun q hq => by cases hq; exact h⟩

theorem Within.mono (h : C.Within me p t Q) (hsub : ∀ q, Q q → R q) : C.Within me p t R :=
  ⟨h.1, fun q hq => hsub q (h.2 q hq)⟩

/-- Where the conversation cannot have come to anything may follow. -/
theorem Within.absurd (h : C.Within me p t Q) (hnone : ∀ q, ¬ Q q) (u : List (Exchange M)) :
    C.Within me p (t ++ u) R := by
  refine ⟨keeps_append.2 ⟨h.1, fun q hq => (hnone q (h.2 q hq)).elim⟩, fun r hr => ?_⟩
  obtain ⟨q, hq, -⟩ := goes_append.1 hr
  exact (hnone q (h.2 q hq)).elim

theorem Within.send (h : C.Within me p t Q)
    (hsend : ∀ q, Q q → C.turn q = me ∧ ∃ r, C.next q m = some r ∧ R r) :
    C.Within me p (t ++ [.sent m]) R := by
  refine ⟨keeps_append.2 ⟨h.1, fun q hq => ?_⟩, fun r hr => ?_⟩
  · obtain ⟨hturn, r, hnext, -⟩ := hsend q (h.2 q hq)
    exact ⟨hturn, r, hnext, trivial⟩
  · obtain ⟨q, hq, -, r', hnext, rfl⟩ := goes_append.1 hr
    obtain ⟨-, r, hnext', hR⟩ := hsend q (h.2 q hq)
    obtain rfl := Option.some.inj (hnext.symm.trans hnext')
    exact hR

theorem Within.receive (h : C.Within me p t Q)
    (hreceive : ∀ q r, Q q → C.turn q ≠ me → C.next q m = some r → R r) :
    C.Within me p (t ++ [.received m]) R := by
  refine ⟨keeps_append.2 ⟨h.1, fun q _ _ r _ => trivial⟩, fun r hr => ?_⟩
  obtain ⟨q, hq, hturn, r', hnext, rfl⟩ := goes_append.1 hr
  exact hreceive q r' (h.2 q hq) hturn hnext

end

/-! ### In step -/

/-- One party has seen all that the other one has, and what is on the way to that one. -/
structure Ahead (C : Conversation P M) (me : Party) (t u : List (Exchange M)) (out inn : List M)
    (mine yours : P) : Prop where
  empty : inn = []
  seen : talk t = talk u ++ out
  way : C.Speaks me yours out mine

/-- Both parties have come to a place of the conversation, and one is ahead of the other. -/
structure InStep (C : Conversation P M) (p : P) (me you : Party) (t u : List (Exchange M))
    (out inn : List M) (mine yours : P) : Prop where
  goes : C.Goes me p t mine
  comes : C.Goes you p u yours
  ahead : C.Ahead me t u out inn mine yours ∨ C.Ahead you u t inn out yours mine

variable {mine yours : P}

theorem InStep.swap (h : C.InStep p me you t u out inn mine yours) :
    C.InStep p you me u t inn out yours mine := ⟨h.comes, h.goes, h.ahead.symm⟩

/-- In its turn a party has nothing to receive. -/
theorem InStep.ahead_of_turn (h : C.InStep p me you t u out inn mine yours) (hne : me ≠ you)
    (hturn : C.turn mine = me) : C.Ahead me t u out inn mine yours := by
  obtain h | ⟨rfl, hseen, hway⟩ := h.ahead
  · exact h
  · cases inn with
    | nil =>
      obtain rfl : mine = yours := hway
      rw [List.append_nil] at hseen
      exact ⟨rfl, hseen.symm.trans (List.append_nil _).symm, rfl⟩
    | cons m inn => exact absurd (hturn.symm.trans hway.1) hne

theorem talk_concat (t : List (Exchange M)) (e : Exchange M) :
    talk (t ++ [e]) = talk t ++ [e.message] := by
  rw [talk, List.map_append]
  rfl

theorem InStep.send (h : C.InStep p me you t u out inn mine yours) (hne : me ≠ you)
    (hkeeps : C.Keeps me p (t ++ [.sent m])) :
    ∃ mine', C.InStep p me you (t ++ [.sent m]) u (out ++ [m]) inn mine' yours := by
  obtain ⟨hturn, mine', hnext, -⟩ := (keeps_append.1 hkeeps).2 mine h.goes
  obtain ⟨hempty, hseen, hway⟩ := h.ahead_of_turn hne hturn
  refine ⟨mine', goes_append.2 ⟨mine, h.goes, hturn, mine', hnext, rfl⟩, h.comes, .inl ⟨hempty, ?_,
    speaks_append.2 ⟨mine, hway, hturn, mine', hnext, rfl⟩⟩⟩
  rw [talk_concat, hseen, List.append_assoc]
  rfl

theorem InStep.receive (h : C.InStep p me you t u out (m :: inn) mine yours) (hne : me ≠ you) :
    ∃ mine', C.InStep p me you (t ++ [.received m]) u out inn mine' yours := by
  obtain ⟨hempty, -, -⟩ | ⟨rfl, hseen, hturn, mine', hnext, hway⟩ := h.ahead
  · cases hempty
  · refine ⟨mine', goes_append.2 ⟨mine, h.goes, ?_, mine', hnext, rfl⟩, h.comes,
      .inr ⟨rfl, ?_, hway⟩⟩
    · rw [hturn]
      exact hne.symm
    · rw [talk_concat, hseen, List.append_assoc]
      rfl

/-- Two parties that keep to a conversation stay in step. -/
theorem lockstep {c s : List (Exchange M)} {up down : List M} (h : Linked c s up down)
    (hc : C.Keeps .client p c) (hs : C.Keeps .server p s) :
    ∃ mine yours, C.InStep p .client .server c s up down mine yours := by
  have hne : Party.client ≠ .server := by decide
  induction h with
  | start => exact ⟨p, p, rfl, rfl, .inl ⟨rfl, rfl, rfl⟩⟩
  | clientSends _ m ih =>
    obtain ⟨mine, yours, hstep⟩ := ih hc.of_append hs
    obtain ⟨mine', hstep'⟩ := hstep.send hne hc
    exact ⟨mine', yours, hstep'⟩
  | clientReceives _ ih =>
    obtain ⟨mine, yours, hstep⟩ := ih hc.of_append hs
    obtain ⟨mine', hstep'⟩ := hstep.receive hne
    exact ⟨mine', yours, hstep'⟩
  | serverSends _ m ih =>
    obtain ⟨mine, yours, hstep⟩ := ih hc hs.of_append
    obtain ⟨yours', hstep'⟩ := hstep.swap.send hne.symm hs
    exact ⟨mine, yours', hstep'.swap⟩
  | serverReceives _ ih =>
    obtain ⟨mine, yours, hstep⟩ := ih hc hs.of_append
    obtain ⟨yours', hstep'⟩ := hstep.swap.receive hne.symm
    exact ⟨mine, yours', hstep'.swap⟩

end Conversation

end RpiFastbootd
