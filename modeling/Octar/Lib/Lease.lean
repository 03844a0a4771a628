import Mathlib.Order.Lattice
import Mathlib.Algebra.Group.Defs

namespace Lease

universe u

variable {T : Type u}

inductive Place (T : Type u)
  | waiting
  | delayed (dueAt : T)
  | leased (deadline : T)

inductive Event (T : Type u)
  | published
  | handed (now lease : T)
  | returned
  | failed (now delay : T)
  | settled
  deriving DecidableEq

section Life

variable [LinearOrder T] [Add T]

inductive Step (now : T) : Option (Place T) → List (Event T) → Option (Place T) → Prop
  | hand (lease : T) : Step now (some .waiting) [.handed now lease] (some (.leased (now + lease)))
  | expire {deadline : T} (h : deadline < now) :
    Step now (some (.leased deadline)) [] (some .waiting)
  | due {dueAt : T} (h : dueAt ≤ now) : Step now (some (.delayed dueAt)) [] (some .waiting)
  | giveBack {deadline : T} : Step now (some (.leased deadline)) [.returned] (some .waiting)
  | giveBackNothing {place : Option (Place T)} : Step now place [.returned] place
  | fail {deadline : T} (delay : T) :
    Step now (some (.leased deadline)) [.failed now delay] (some (.delayed (now + delay)))
  | settle {deadline : T} : Step now (some (.leased deadline)) [.settled] none

inductive Life : T → Option (Place T) → List (Event T) → Prop
  | start (now : T) : Life now none []
  | tick {now now' : T} {place : Option (Place T)} {history : List (Event T)}
    (h : Life now place history) (hle : now ≤ now') : Life now' place history
  | publish {now : T} {history : List (Event T)} (h : Life now none history)
    (hnew : .published ∉ history) : Life now (some .waiting) (history ++ [.published])
  | step {now : T} {place place' : Option (Place T)} {history events : List (Event T)}
    (h : Life now place history) (hstep : Step now place events place') :
    Life now place' (history ++ events)

def Justified (now lease : T) (since : List (Event T)) (now' : T) : Prop :=
  .returned ∈ since ∨ (∃ failedAt delay, .failed failedAt delay ∈ since ∧ failedAt + delay ≤ now') ∨
    now + lease < now'

theorem Justified.mono {now lease t t' : T} {since since' : List (Event T)}
    (h : Justified now lease since t) (hsince : since ⊆ since') (hle : t ≤ t') :
    Justified now lease since' t' := by
  rcases h with h | ⟨failedAt, delay, hmem, hdue⟩ | h
  · exact .inl (hsince h)
  · exact .inr (.inl ⟨failedAt, delay, hsince hmem, hdue.trans hle⟩)
  · exact .inr (.inr (h.trans_le hle))

inductive After (now lease : T) (since : List (Event T)) (now' : T) : Option (Place T) → Prop
  | justified {place : Option (Place T)} (h : Justified now lease since now') :
    After now lease since now' place
  | leased : After now lease since now' (some (.leased (now + lease)))
  | failed {failedAt delay : T} (h : .failed failedAt delay ∈ since) :
    After now lease since now' (some (.delayed (failedAt + delay)))
  | settled : After now lease since now' none

theorem After.mono {now lease t t' : T} {since since' : List (Event T)} {place : Option (Place T)}
    (h : After now lease since t place) (hsince : since ⊆ since') (hle : t ≤ t') :
    After now lease since' t' place := by
  cases h with
  | justified h => exact .justified (h.mono hsince hle)
  | leased => exact .leased
  | failed h => exact .failed (hsince h)
  | settled => exact .settled

theorem After.step {now lease t : T} {since events : List (Event T)}
    {place place' : Option (Place T)} (h : After now lease since t place)
    (hstep : Step t place events place') :
    After now lease (since ++ events) t place' := by
  cases hstep with
  | hand =>
    cases h with
    | justified h => exact .justified (h.mono (List.subset_append_left _ _) le_rfl)
  | expire hlt =>
    refine .justified ?_
    cases h with
    | justified h => exact h.mono (List.subset_append_left _ _) le_rfl
    | leased => exact .inr (.inr hlt)
  | due hle =>
    refine .justified ?_
    cases h with
    | justified h => exact h.mono (List.subset_append_left _ _) le_rfl
    | failed h => exact .inr (.inl ⟨_, _, List.mem_append_left _ h, hle⟩)
  | giveBack => exact .justified (.inl (List.mem_append_right _ (List.mem_singleton_self _)))
  | giveBackNothing => exact .justified (.inl (List.mem_append_right _ (List.mem_singleton_self _)))
  | fail => exact .failed (List.mem_append_right _ (List.mem_singleton_self _))
  | settle => exact .settled

theorem Step.length_le {now : T} {place place' : Option (Place T)} {events : List (Event T)}
    (h : Step now place events place') : events.length ≤ 1 := by
  cases h <;> simp

theorem Step.of_none {now : T} {place' : Option (Place T)} {events : List (Event T)}
    (h : Step now none events place') : place' = none ∧ events = [.returned] := by
  cases h
  exact ⟨rfl, rfl⟩

theorem Step.of_handed {now t lease : T} {place place' : Option (Place T)}
    (h : Step now place [.handed t lease] place') :
    t = now ∧ place = some .waiting ∧ place' = some (.leased (t + lease)) := by
  cases h
  exact ⟨rfl, rfl, rfl⟩

theorem append_short_eq {α : Type u} {l short before after : List α} {a : α}
    (hshort : short.length ≤ 1) (h : l ++ short = before ++ a :: after) :
    short = [a] ∧ l = before ∧ after = [] ∨ ∃ after', after = after' ++ short ∧
      l = before ++ a :: after' := by
  rcases List.eq_nil_or_concat after with rfl | ⟨after', c, rfl⟩
  · match short, hshort with
    | [], _ => exact .inr ⟨[], rfl, by simpa using h⟩
    | [b], _ =>
      obtain ⟨hl, hb⟩ := List.append_inj' h rfl
      exact .inl ⟨hb, hl, rfl⟩
  · match short, hshort with
    | [], _ => exact .inr ⟨_, (List.append_nil _).symm, by simpa using h⟩
    | [b], _ =>
      rw [List.concat_eq_append, ← List.cons_append, ← List.append_assoc] at h
      obtain ⟨hl, hb⟩ := List.append_inj' h rfl
      exact .inr ⟨after', by rw [hb, List.concat_eq_append], hl⟩

structure Lawful (now : T) (place : Option (Place T)) (history : List (Event T)) : Prop where
  published : (place ≠ none ∨ ∃ e ∈ history, e ≠ .returned) → .published ∈ history
  justified : ∀ before t lease since t' lease' after,
    history = before ++ .handed t lease :: (since ++ .handed t' lease' :: after) →
      Justified t lease since t'
  since : ∀ before t lease since, history = before ++ .handed t lease :: since →
    After t lease since now place
  settled : ∀ before after, history = before ++ .settled :: after →
    place = none ∧ ∀ t lease, .handed t lease ∉ after

theorem Lawful.step {now : T} {place place' : Option (Place T)} {history events : List (Event T)}
    (h : Lawful now place history) (hstep : Step now place events place') :
    Lawful now place' (history ++ events) := by
  have hshort := hstep.length_le
  constructor
  case published =>
    intro hseen
    apply List.mem_append_left
    apply h.published
    by_cases hplace : place = none
    · subst hplace
      obtain ⟨rfl, rfl⟩ := hstep.of_none
      obtain ⟨e, he, hne⟩ := hseen.resolve_left (fun hn => hn rfl)
      refine .inr ⟨e, (List.mem_append.mp he).resolve_right ?_, hne⟩
      exact fun hr => hne (List.mem_singleton.mp hr)
    · exact .inl hplace
  case justified =>
    intro before t lease since t' lease' after hsplit
    rw [← List.cons_append, ← List.append_assoc] at hsplit
    rcases append_short_eq hshort hsplit with ⟨rfl, hhist, -⟩ | ⟨after', -, hhist⟩
    -- the second handing out is the last event
    · obtain ⟨rfl, rfl, -⟩ := hstep.of_handed
      cases h.since before t lease since hhist with
      | justified hj => exact hj
    · rw [List.append_assoc, List.cons_append] at hhist
      exact h.justified before t lease since t' lease' after' hhist
  case since =>
    intro before t lease since hsplit
    rcases append_short_eq hshort hsplit with ⟨rfl, -, rfl⟩ | ⟨since', rfl, hhist⟩
    · obtain ⟨-, -, rfl⟩ := hstep.of_handed
      exact .leased
    · exact (h.since before t lease since' hhist).step hstep
  case settled =>
    intro before after hsplit
    rcases append_short_eq hshort hsplit with ⟨rfl, -, rfl⟩ | ⟨after', rfl, hhist⟩
    · cases hstep
      exact ⟨rfl, fun t lease hmem => (nomatch hmem)⟩
    · obtain ⟨rfl, hafter⟩ := h.settled before after' hhist
      obtain ⟨rfl, rfl⟩ := hstep.of_none
      refine ⟨rfl, fun t lease hmem => ?_⟩
      rcases List.mem_append.mp hmem with hmem | hmem
      · exact hafter t lease hmem
      · cases List.mem_singleton.mp hmem

theorem Lawful.publish {now : T} {history : List (Event T)} (h : Lawful now none history)
    (hnew : .published ∉ history) : Lawful now (some .waiting) (history ++ [.published]) := by
  -- nothing has been seen of the item but vain returns
  have hold : ∀ e ∈ history, e = .returned := by
    intro e he
    by_contra hne
    exact hnew (h.published (.inr ⟨e, he, hne⟩))
  have hsplit : ∀ e before after, e ≠ .returned → e ≠ .published →
      history ++ [.published] ≠ before ++ e :: after := by
    intro e before after hret hpub heq
    rcases append_short_eq (by simp) heq with ⟨hlast, -⟩ | ⟨after', -, hhist⟩
    · exact hpub (List.singleton_inj.mp hlast).symm
    · exact hret (hold e (hhist ▸ by simp))
  refine ⟨fun _ => by simp, ?_, ?_, ?_⟩
  · intro before t lease since t' lease' after heq
    exact absurd heq (hsplit _ _ _ (by simp) (by simp))
  · intro before t lease since heq
    exact absurd heq (hsplit _ _ _ (by simp) (by simp))
  · intro before after heq
    exact absurd heq (hsplit _ _ _ (by simp) (by simp))

theorem Life.lawful {now : T} {place : Option (Place T)} {history : List (Event T)}
    (h : Life now place history) : Lawful now place history := by
  induction h with
  | start now => constructor <;> simp
  | tick h hle ih =>
    refine ⟨ih.published, ih.justified, ?_, ih.settled⟩
    intro before t lease since hsplit
    exact (ih.since before t lease since hsplit).mono (fun _ he => he) hle
  | publish h hnew ih => exact ih.publish hnew
  | step h hstep ih => exact ih.step hstep

theorem Life.place_eq_none {now : T} {place : Option (Place T)} {history : List (Event T)}
    (h : Life now place history) (hnew : .published ∉ history) : place = none := by
  by_contra hne
  exact hnew (h.lawful.published (.inl hne))

end Life

end Lease
