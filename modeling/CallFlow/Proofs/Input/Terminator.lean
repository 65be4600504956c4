import CallFlow.Proofs.Input.Grammar

/-! # Terminator keys after an answer

A caller may end a keypad entry with terminator keys. They do not change what digits, a number or a
menu key is read as, however many there are. An answer to a yes-or-no question has no terminator:
with one after it, it is no answer.
-/
namespace CallFlow
open Text

namespace InputType
variable {type : InputType} {cs : List Char} {input : StepInput} {n : Nat}

theorem terminated_terminated (entry : List Char) (m n : Nat) :
    terminated (terminated entry m) n = terminated entry (m + n) := by
  simp only [terminated, List.append_assoc, List.replicate_append_replicate]

theorem toList_append_replicate (s : String) (n : Nat) :
    (s ++ String.ofList (List.replicate n '#')).toList = terminated s.toList n := by
  rw [String.toList_append, String.toList_ofList, terminated]

theorem terminated_ne_nil (h : cs ≠ []) (n : Nat) : terminated cs n ≠ [] := by simp [terminated, h]

theorem trimmed_terminated (h : Trimmed cs) (hsome : cs ≠ []) (n : Nat) :
    Trimmed (terminated cs n) where
  first := by
    intro c hc
    rw [terminated, List.head?_append_of_ne_nil _ hsome] at hc
    exact h.first c hc
  last := by
    intro c hc
    cases n with
    | zero => exact h.last c (by simpa [terminated] using hc)
    | succ n =>
      have hend : c = '#' := by
        simpa [terminated, List.getLast?_append, List.getLast?_replicate] using hc.symm
      rw [hend]
      decide

/-- Where entries may have terminator keys after them, more of them do not matter. -/
theorem Reads.terminated (h : type.Reads cs input) (htext : ∀ most, type ≠ .text most)
    (hyesNo : type ≠ .yesNo) (n : Nat) : type.Reads (terminated cs n) input := by
  cases h with
  | digits m some digits least_le le_most =>
    rw [terminated_terminated]
    exact .digits (m + n) some digits least_le le_most
  | number m denotes =>
    rw [terminated_terminated]
    exact .number (m + n) denotes
  | selection m listed bare =>
    rw [terminated_terminated]
    exact .selection (m + n) listed bare
  | text => exact absurd rfl (htext _)
  | yesNo => exact absurd rfl hyesNo

theorem Reads.not_mem_of_yesNo (h : Reads .yesNo cs input) : '#' ∉ cs := by
  intro hc
  cases h with
  | yesNo listed =>
    have hlower : '#' ∈ cs.map Char.toLower := List.mem_map.mpr ⟨'#', hc, by decide⟩
    have hwords : ∀ w ∈ answers, '#' ∉ w.1.toList := by decide
    exact hwords _ listed (by rwa [String.toList_ofList])

/-- Terminator keys after an accepted entry change nothing, except after the answer to a yes-or-no
question: that is not accepted with terminator keys after it. -/
theorem terminators_ignored_iff {s : String} (htext : ∀ most, type ≠ .text most)
    (htrimmed : Trimmed s.toList) (h : type.bind (some s) = .ok input) (n : Nat) :
    (type.bind (some (s ++ String.ofList (List.replicate n '#'))) = .ok input ↔
      type ≠ .yesNo ∨ n = 0) ∧
    (type = .yesNo → n ≠ 0 → type.bind (some (s ++ String.ofList (List.replicate n '#'))) =
      .error (.invalid "yes or no" (s ++ String.ofList (List.replicate n '#')))) := by
  obtain ⟨entered, cs, hs, htrims, hsome, hreads⟩ := exists_of_bind_eq_ok h
  cases hs
  obtain rfl : s.toList = cs := htrimmed.trimsTo.trim_eq.symm.trans htrims.trim_eq
  have hentry := toList_append_replicate s n
  have htrims' : TrimsTo (s ++ String.ofList (List.replicate n '#')).toList
      (terminated s.toList n) := hentry ▸ (trimmed_terminated htrimmed hsome n).trimsTo
  have hsome' := terminated_ne_nil hsome n
  have hrefused : type = .yesNo → n ≠ 0 → ∀ input, ¬ type.Reads (terminated s.toList n) input := by
    rintro rfl hn input hinput
    refine hinput.not_mem_of_yesNo (List.mem_append_right _ ?_)
    exact List.mem_replicate.mpr ⟨hn, rfl⟩
  rw [bind_eq_ok_iff htrims' hsome']
  refine ⟨⟨?_, ?_⟩, ?_⟩
  · intro hinput
    by_contra hnot
    push Not at hnot
    exact hrefused hnot.1 hnot.2 _ hinput
  · rintro (hyesNo | rfl)
    · exact hreads.terminated htext hyesNo n
    · simpa [terminated] using hreads
  · rintro rfl hn
    rw [bind_eq_invalid htrims' hsome' (hrefused rfl hn), ← hentry, String.ofList_toList]
    rfl

/-- The terminator key that makes no difference to an account number spoils a consent. -/
theorem terminators_ignored_iff_consent :
    (digits 1 none).bind (some "42") = .ok (.digits "42") ∧
    (digits 1 none).bind (some "42##") = .ok (.digits "42") ∧
    yesNo.bind (some "1") = .ok (.yesNo true) ∧
    yesNo.bind (some "1#") ≠ .ok (.yesNo true) ∧
    yesNo.bind (some "1#") = .error (.invalid "yes or no" "1#") := by
  have haccount : (digits 1 none).bind (some "42") = .ok (.digits "42") := by decide
  have hconsent : yesNo.bind (some "1") = .ok (.yesNo true) := by decide
  obtain ⟨hsame, -⟩ := terminators_ignored_iff (by simp) (by decide) haccount 2
  obtain ⟨hdiffers, hrefused⟩ := terminators_ignored_iff (by simp) (by decide) hconsent 1
  exact ⟨haccount, hsame.mpr (.inl (by simp)), hconsent, mt hdiffers.mp (by simp),
    hrefused rfl (by decide)⟩

end InputType
end CallFlow
