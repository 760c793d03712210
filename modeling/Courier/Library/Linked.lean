import Mathlib.Data.List.Induction

/-!
# Hash-linked lists

Every element of a list names the hash of the element before it, the first one a fixed start.  If the
hash is injective, a list is determined by its length and its last element (`Linked.unique`).
-/

variable {T L : Type}

/-- Every element names the hash of the element before it, the first one the start. -/
def Linked (back hash : T → L) (start : L) : List T → Prop
  | [] => True
  | t :: ts => back t = start ∧ Linked back hash (hash t) ts

/-- What the next element of a list is to name. -/
def lastLink (hash : T → L) (start : L) (ts : List T) : L :=
  (ts.getLast?.map hash).getD start

namespace Linked

variable {back hash : T → L}

@[simp]
theorem lastLink_nil (start : L) :
  lastLink hash start [] = start
  := rfl

@[simp]
theorem lastLink_concat (start : L) (ts : List T) (t : T) :
  lastLink hash start (ts ++ [t]) = hash t
  := by
  simp [lastLink]

theorem lastLink_cons (start : L) (t : T) (ts : List T) :
  lastLink hash start (t :: ts) = lastLink hash (hash t) ts
  := by
  cases ts with
  | nil => rfl
  | cons u us => simp [lastLink, List.getLast?_cons]

theorem concat {start : L} {ts : List T} {t : T} :
  Linked back hash start (ts ++ [t]) ↔
    Linked back hash start ts ∧ back t = lastLink hash start ts
  := by
  induction ts generalizing start with
  | nil => simp [Linked]
  | cons u us ih =>
    rw [List.cons_append, Linked, ih, Linked, lastLink_cons, and_assoc]

theorem of_append {start : L} {ts us : List T} (h : Linked back hash start (ts ++ us)) :
  Linked back hash start ts
  := by
  induction ts generalizing start with
  | nil => trivial
  | cons t ts ih => exact ⟨h.1, ih h.2⟩

theorem back_eq {start : L} {ts : List T} {t : T} (h : Linked back hash start ts) (ht : t ∈ ts) :
  back t = start ∨ ∃ u ∈ ts, back t = hash u
  := by
  induction ts generalizing start with
  | nil => cases ht
  | cons u ts ih =>
    rcases List.mem_cons.mp ht with rfl | ht
    · exact .inl h.1
    · rcases ih h.2 ht with hstart | ⟨v, hv, hback⟩
      · exact .inr ⟨u, by simp, hstart⟩
      · exact .inr ⟨v, by simp [hv], hback⟩

theorem map {f : T → T} {start : L} {ts : List T} (hhash : ∀ t ∈ ts, hash (f t) = hash t)
    (hback : ∀ t ∈ ts, back (f t) = back t) (h : Linked back hash start ts) :
  Linked back hash start (ts.map f)
  := by
  induction ts generalizing start with
  | nil => trivial
  | cons t ts ih =>
    refine ⟨(hback t (by simp)).trans h.1, ?_⟩
    rw [hhash t (by simp)]
    exact ih (fun u hu => hhash u (by simp [hu])) (fun u hu => hback u (by simp [hu])) h.2

/-- Two linked lists of one length with one last element are equal if no two of their elements share
a hash. -/
theorem unique {start : L} {ts us : List T} (hinj : ∀ t ∈ ts, ∀ u ∈ us, hash t = hash u → t = u)
    (hts : Linked back hash start ts) (hus : Linked back hash start us)
    (hlength : ts.length = us.length) (hlast : ts.getLast? = us.getLast?) :
  ts = us
  := by
  induction ts using List.reverseRecOn generalizing us with
  | nil =>
    rw [List.length_nil] at hlength
    exact (List.eq_nil_of_length_eq_zero hlength.symm).symm
  | append_singleton ts t ih =>
    cases us using List.reverseRecOn with
    | nil => simp at hlength
    | append_singleton us u =>
      have htu : t = u := by simpa using hlast
      subst htu
      obtain ⟨hts, hbackT⟩ := concat.mp hts
      obtain ⟨hus, hbackU⟩ := concat.mp hus
      have hlength : ts.length = us.length := by simpa using hlength
      have hlinks : lastLink hash start ts = lastLink hash start us := hbackT.symm.trans hbackU
      have hlast : ts.getLast? = us.getLast? := by
        cases ts using List.reverseRecOn with
        | nil => rw [List.eq_nil_of_length_eq_zero hlength.symm]
        | append_singleton ts a =>
          cases us using List.reverseRecOn with
          | nil => simp at hlength
          | append_singleton us b =>
            rw [lastLink_concat, lastLink_concat] at hlinks
            rw [hinj a (by simp) b (by simp) hlinks]
            simp
      rw [ih (fun a ha b hb => hinj a (by simp [ha]) b (by simp [hb])) hts hus hlength hlast]

end Linked
