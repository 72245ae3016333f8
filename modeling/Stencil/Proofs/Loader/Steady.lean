import Stencil.Proofs.Loader.Session
import Stencil.Proofs.Loader.Transparency

/-! # Loaders over sources that stay -/

namespace Stencil

def Request.Steady (request : Request) : Prop :=
  ∀ n change, request ≠ .alter n change

def Moment.Steady (m : Moment) : Prop :=
  ∀ n change, m ≠ .altered n change

namespace Loader

/-- What becomes of a loader while requests leave its sources alone. -/
def Becomes (host : Host) (start l : Loader) : Prop :=
  ∃ requests : List Request, (∀ request ∈ requests, request.Steady) ∧
    l = requests.foldl (after host) start

private theorem Faithful.of_cache {l m : Loader} (h : l.Faithful) (hm : m.Matches l)
    (hc : m.cache = l.cache) : m.Faithful := by
  intro name t ht
  rw [hc] at ht
  rw [hm.afresh]
  exact h name t ht

theorem faithful_of_clear {l : Loader} (h : l.clear = l) : l.Faithful := by
  rw [← h]
  exact faithful_clear l

namespace Agrees

variable {start l m : Loader}

theorem trans_right (h : start.Agrees l) (h' : start.Agrees m) : l.Agrees m :=
  ⟨h.alike.symm.trans h'.alike, h.right, h'.right⟩

/-- Whatever happens to a loader but to its sources, it gives the same templates. -/
private theorem next (h : start.Agrees l) {moment : Moment} (hm : moment.Steady) :
    start.Agrees (l.next moment) := by
  cases moment with
  | asked a =>
    obtain ⟨-, hmatches, hfaithful⟩ := load_spec h.right a.name
    exact ⟨h.alike.trans hmatches.symm, h.left, hfaithful⟩
  | compiled source name defaults m =>
    rw [Loader.next, compile]
    cases l.dialect.compile source name defaults (l.attach m) l.nextSerial with
    | error e => exact h
    | ok t =>
      have hmatches : ({ l with nextSerial := l.nextSerial + 1 } : Loader).Matches l :=
        ⟨rfl, rfl, rfl⟩
      exact ⟨h.alike.trans hmatches.symm, h.left, h.right.of_cache hmatches rfl⟩
  | cleared =>
    have hmatches : l.Matches l.clear := ⟨rfl, rfl, rfl⟩
    exact ⟨h.alike.trans hmatches, h.left, faithful_clear l⟩
  | altered n change => exact absurd rfl (hm n change)

private theorem run {moments : List Moment} (h : start.Agrees l) (hrun : Happens l moments m)
    (hsteady : ∀ moment ∈ moments, moment.Steady) : start.Agrees m := by
  induction hrun with
  | nil => exact h
  | cons _ _ ih =>
    obtain ⟨hfirst, hrest⟩ := List.forall_mem_cons.mp hsteady
    exact ih (h.next hfirst) hrest

end Agrees

private theorem moments_steady (host : Host) (l : Loader) {request : Request} (h : request.Steady) :
    ∀ moment ∈ l.moments host request, moment.Steady := by
  have hasked : ∀ as : List Ask, ∀ moment ∈ as.map Moment.asked, moment.Steady := by
    intro as moment hm n change
    obtain ⟨a, -, rfl⟩ := List.mem_map.mp hm
    simp
  cases request with
  | load name => exact hasked [⟨name, l⟩]
  | render name params depth => exact hasked _
  | renderTemplate t params depth => exact hasked _
  | compile source name defaults m => simp [moments, Moment.Steady]
  | isCached name => simp [moments]
  | clear => simp [moments, Moment.Steady]
  | alter n change => exact absurd rfl (h n change)

private theorem journal_steady (host : Host) (l : Loader) {requests : List Request}
    (h : ∀ request ∈ requests, request.Steady) :
    ∀ moment ∈ l.journal host requests, moment.Steady := by
  induction requests generalizing l with
  | nil => exact fun _ hm => (List.not_mem_nil hm).elim
  | cons request rest ih =>
    obtain ⟨hfirst, hrest⟩ := List.forall_mem_cons.mp h
    rw [journal, List.forall_mem_append]
    exact ⟨l.moments_steady host hfirst, ih (l.after host request) hrest⟩

theorem Becomes.agrees {host : Host} {start l : Loader} (h : start.Becomes host l)
    (hstart : start.Faithful) : start.Agrees l := by
  obtain ⟨requests, hsteady, rfl⟩ := h
  have hself : start.Agrees start := ⟨⟨rfl, rfl, rfl⟩, hstart, hstart⟩
  exact hself.run (start.journal_happens host requests) (start.journal_steady host hsteady)

end Loader

end Stencil
