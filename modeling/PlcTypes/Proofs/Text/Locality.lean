import PlcTypes.Proofs.Text.Search

/-!
# Searches that come to the same place

A recogniser that reads what it accepts without regard to the rest of the text reads the same from two
texts up to the place where they differ, as long as a search through either of them comes to that place
at all. So what is found before the place is the same, and only what stands there can make a difference.
-/

namespace PlcTypes.Text

variable {α : Type}

/-- What the recogniser accepts it accepts in front of any other rest too. -/
def IsLocal (recognise : List Char → Option (α × List Char)) : Prop :=
  ∀ text found rest, recognise text = some (found, rest) →
    ∃ taken, taken ≠ [] ∧ text = taken ++ rest ∧
      ∀ rest', recognise (taken ++ rest') = some (found, rest')

/-- The search for all values comes to try at `rest`. -/
inductive Meets (recognise : List Char → Option (α × List Char)) (rest : List Char) : List Char → Prop
  | here : Meets recognise rest rest
  | skip {c : Char} {text : List Char} : recognise (c :: text) = none → Meets recognise rest text →
      Meets recognise rest (c :: text)
  | take {text next : List Char} {found : α} : recognise text = some (found, next) →
      Meets recognise rest next → Meets recognise rest text

variable {recognise : List Char → Option (α × List Char)}

/-- What is accepted has characters. -/
theorem IsLocal.advances (h : IsLocal recognise) : Advances recognise := by
  intro text found rest hfound
  obtain ⟨taken, hne, rfl, -⟩ := h _ _ _ hfound
  rw [List.length_append]
  have := List.length_pos_iff.mpr hne
  omega

/-- A search only comes to ends of the text. -/
theorem Meets.exists_append {text rest : List Char} (hlocal : IsLocal recognise)
    (h : Meets recognise rest text) : ∃ passed, text = passed ++ rest := by
  induction h with
  | here => exact ⟨[], rfl⟩
  | skip _ _ ih =>
    obtain ⟨passed, rfl⟩ := ih
    exact ⟨_ :: passed, rfl⟩
  | take hfound _ ih =>
    obtain ⟨passed, rfl⟩ := ih
    obtain ⟨taken, -, rfl, -⟩ := hlocal _ _ _ hfound
    exact ⟨taken ++ passed, (List.append_assoc ..).symm⟩

/-- The text before the first place at which a word occurs does not depend on what follows there. -/
theorem exists_cut?_append (word front : List Char) (hne : word ≠ []) :
    ∃ before, ∀ rest, (cut? word (front ++ (word ++ rest))).map Prod.fst = some before := by
  induction front with
  | nil =>
    obtain ⟨w, tail, rfl⟩ := List.exists_cons_of_ne_nil hne
    refine ⟨[], fun rest => ?_⟩
    have hstart : after? (w :: tail) (w :: (tail ++ rest)) = some rest := after?_append (w :: tail) rest
    rw [List.nil_append, List.cons_append, cut?, hstart]
    rfl
  | cons c front ih =>
    obtain ⟨before, hbefore⟩ := ih
    have hstart (rest : List Char) :
        word <+: c :: (front ++ (word ++ rest)) ↔ word <+: c :: (front ++ word) := by
      rw [← List.append_assoc, ← List.cons_append]
      refine ⟨fun h => ?_, fun h => h.trans (List.prefix_append _ _)⟩
      exact List.prefix_of_prefix_length_le h (List.prefix_append _ _) (by simp; omega)
    by_cases hword : word <+: c :: (front ++ word)
    · refine ⟨[], fun rest => ?_⟩
      obtain ⟨tail, htail⟩ := (hstart rest).mpr hword
      rw [List.cons_append, cut?, after?_eq_some_iff.mpr htail.symm]
      rfl
    · refine ⟨c :: before, fun rest => ?_⟩
      have hfirst := hbefore rest
      rw [List.cons_append, cut?, after?_eq_none_iff.mpr (mt (hstart rest).mp hword)]
      dsimp only
      obtain ⟨parts, hcut, rfl⟩ := Option.map_eq_some_iff.mp hfirst
      rw [hcut]
      rfl

/-- Where a text is cut does not depend on what follows there. -/
theorem cut?_of_cut?_append {word before rest : List Char} (rest' : List Char) (hne : word ≠ [])
    (h : cut? word (before ++ (word ++ rest)) = some (before, rest)) :
    cut? word (before ++ (word ++ rest')) = some (before, rest') := by
  obtain ⟨first, hfirst⟩ := exists_cut?_append word before hne
  have hbefore := hfirst rest
  rw [h, Option.map_some, Option.some.injEq] at hbefore
  obtain ⟨⟨left, right⟩, hcut, hleft⟩ := Option.map_eq_some_iff.mp (hfirst rest')
  obtain rfl : left = before := hleft.trans hbefore.symm
  have hsplit := eq_of_cut? hcut
  rw [List.append_cancel_left_eq, List.append_cancel_left_eq] at hsplit
  rw [hcut, hsplit]

section Places

variable {front tail tail' : List Char}

/-- What is accepted before a place of the text is accepted whatever stands there. -/
theorem IsLocal.exists_rest (hlocal : IsLocal recognise) {found : α} {passed : List Char}
    (h : recognise (front ++ tail) = some (found, passed ++ tail)) (tail' : List Char) :
    recognise (front ++ tail') = some (found, passed ++ tail') ∧ passed.length < front.length := by
  obtain ⟨taken, hne, hsplit, hany⟩ := hlocal _ _ _ h
  rw [← List.append_assoc, List.append_cancel_right_eq] at hsplit
  subst hsplit
  refine ⟨?_, ?_⟩
  · rw [List.append_assoc]
    exact hany _
  · have := List.length_pos_iff.mpr hne
    rw [List.length_append]
    omega

/-- A search that does not end where a value is accepted goes on behind it. -/
theorem Meets.of_accept {text next rest : List Char} {found : α} (h : Meets recognise rest text)
    (hne : text ≠ rest) (hfound : recognise text = some (found, next)) : Meets recognise rest next := by
  cases h with
  | here => exact absurd rfl hne
  | skip hreject _ =>
    exact absurd (hreject.symm.trans hfound) (Option.some_ne_none _).symm
  | take hother hrest =>
    rw [hfound] at hother
    obtain ⟨-, rfl⟩ := Prod.mk.inj (Option.some.inj hother)
    exact hrest

/-- A search that does not end where nothing is accepted drops a character. -/
theorem Meets.of_reject {c : Char} {text rest : List Char} (h : Meets recognise rest (c :: text))
    (hne : c :: text ≠ rest) (hreject : recognise (c :: text) = none) : Meets recognise rest text := by
  cases h with
  | here => exact absurd rfl hne
  | skip _ hrest => exact hrest
  | take hfound _ =>
    exact absurd (hreject.symm.trans hfound) (Option.some_ne_none _).symm

/-- Two searches that come to the same place have found the same before. -/
theorem Meets.exists_findAll (hlocal : IsLocal recognise) (h : Meets recognise tail (front ++ tail))
    (h' : Meets recognise tail' (front ++ tail')) :
    ∃ before, findAll recognise (front ++ tail) = before ++ findAll recognise tail ∧
      findAll recognise (front ++ tail') = before ++ findAll recognise tail' := by
  induction hlength : front.length using Nat.strong_induction_on generalizing front with
  | h length ih =>
    cases front with
    | nil => exact ⟨[], rfl, rfl⟩
    | cons c front =>
      have hbehind (tail : List Char) : c :: front ++ tail ≠ tail := fun heq =>
        List.cons_ne_nil c front (List.append_left_eq_self.mp heq)
      cases hfound : recognise (c :: front ++ tail) with
      | some value =>
        obtain ⟨found, next⟩ := value
        have hnext := h.of_accept (hbehind tail) hfound
        obtain ⟨passed, rfl⟩ := hnext.exists_append hlocal
        obtain ⟨hfound', hshorter⟩ := hlocal.exists_rest hfound tail'
        obtain ⟨before, hbefore, hbefore'⟩ :=
          ih _ (hlength ▸ hshorter) hnext (h'.of_accept (hbehind tail') hfound') rfl
        exact ⟨found :: before, by rw [findAll_of_accept hlocal.advances hfound, hbefore, List.cons_append],
          by rw [findAll_of_accept hlocal.advances hfound', hbefore', List.cons_append]⟩
      | none =>
        have hreject' : recognise (c :: front ++ tail') = none := by
          cases hfound' : recognise (c :: front ++ tail') with
          | none => rfl
          | some value =>
            obtain ⟨found, next⟩ := value
            obtain ⟨passed, rfl⟩ := (h'.of_accept (hbehind tail') hfound').exists_append hlocal
            rw [(hlocal.exists_rest hfound' tail).1] at hfound
            exact absurd hfound (Option.some_ne_none _)
        obtain ⟨before, hbefore, hbefore'⟩ := ih front.length (hlength ▸ Nat.lt_succ_self _)
          (h.of_reject (hbehind tail) hfound) (h'.of_reject (hbehind tail') hreject') rfl
        exact ⟨before, (findAll_cons_of_reject hfound).trans hbefore,
          (findAll_cons_of_reject hreject').trans hbefore'⟩

/-- What is found first leaves a rest that is shorter than the text. -/
theorem IsLocal.length_rest_lt (hlocal : IsLocal recognise) {previous : Option Char} {text : List Char}
    {hit : Hit α} (h : find? (fun _ => recognise) previous text = some hit) :
    hit.rest.length < text.length := by
  obtain ⟨behind, rfl, hfound⟩ := find?_spec h
  have := hlocal.advances _ _ _ hfound
  rw [List.length_append]
  omega

/-- Two searches for the first value that end before the same place find the same. -/
theorem IsLocal.find?_eq (hlocal : IsLocal recognise) {previous : Option Char} {hit hit' : Hit α}
    {passed passed' : List Char} (h : find? (fun _ => recognise) previous (front ++ tail) = some hit)
    (h' : find? (fun _ => recognise) previous (front ++ tail') = some hit')
    (hrest : hit.rest = passed ++ tail) (hrest' : hit'.rest = passed' ++ tail') :
    hit.found = hit'.found ∧ passed = passed' := by
  induction front generalizing previous hit hit' with
  | nil =>
    have := hlocal.length_rest_lt h
    rw [hrest, List.nil_append, List.length_append] at this
    omega
  | cons c front ih =>
    rw [List.cons_append, find?] at h h'
    cases hfound : recognise (c :: (front ++ tail)) with
    | some value =>
      obtain ⟨found, next⟩ := value
      rw [hfound] at h
      obtain rfl := Option.some.inj h
      obtain rfl : next = passed ++ tail := hrest
      rw [← List.cons_append] at hfound
      rw [← List.cons_append, (hlocal.exists_rest hfound tail').1] at h'
      obtain rfl := Option.some.inj h'
      exact ⟨rfl, List.append_cancel_right hrest'⟩
    | none =>
      rw [hfound] at h
      obtain ⟨inner, hinner, rfl⟩ := Option.map_eq_some_iff.mp h
      cases hfound' : recognise (c :: (front ++ tail')) with
      | some value =>
        obtain ⟨found, next⟩ := value
        rw [hfound'] at h'
        obtain rfl := Option.some.inj h'
        obtain rfl : next = passed' ++ tail' := hrest'
        rw [← List.cons_append] at hfound hfound'
        rw [(hlocal.exists_rest hfound' tail).1] at hfound
        exact absurd hfound (Option.some_ne_none _)
      | none =>
        rw [hfound'] at h'
        obtain ⟨inner', hinner', rfl⟩ := Option.map_eq_some_iff.mp h'
        have hend : inner.rest = passed ++ tail := hrest
        have hend' : inner'.rest = passed' ++ tail' := hrest'
        have hsame := ih hinner hinner' hend hend'
        exact hsame

end Places

end PlcTypes.Text
