import IncludeAudit.Text.Part

/-! # Parts of texts put together

What is put in front of a text or behind it can be taken off again.
-/
namespace IncludeAudit.Text

@[simp] theorem after?_append (start text : String) :
    after? start (start ++ text) = some text := by
  have hprefix : start.toList.isPrefixOf (start ++ text).toList = true := by
    rw [List.isPrefixOf_iff_prefix, String.toList_append]
    exact List.prefix_append ..
  rw [after?, if_pos hprefix, String.toList_append, List.drop_left, String.ofList_toList]

theorem after?_eq_none {start text : String} (h : ¬ start.toList <+: text.toList) :
    after? start text = none := by
  rw [after?, if_neg fun hprefix => h (List.isPrefixOf_iff_prefix.1 hprefix)]

theorem removeSuffix_of_toList {text ending : String} {cs : List Char}
    (h : text.toList = cs ++ ending.toList) : removeSuffix text ending = String.ofList cs := by
  have hends : endsWith ending text = true := by
    rw [endsWith, List.isSuffixOf_iff_suffix, h]
    exact List.suffix_append ..
  rw [removeSuffix, if_pos hends, h, List.length_append, Nat.add_sub_cancel, List.take_left]

theorem beforeLast_of_not_mem {c : Char} {text : String} (h : c ∉ text.toList) :
    beforeLast c text = text := by
  rw [beforeLast, if_neg (mt List.contains_iff_mem.1 h)]

/-- A part that starts with `c` and has no other one is what stands from the last `c` on. -/
theorem beforeLast_append {c : Char} {base rest : String} {cs : List Char}
    (hrest : rest.toList = c :: cs) (hcs : c ∉ cs) : beforeLast c (base ++ rest) = base := by
  have htext : (base ++ rest).toList = base.toList ++ c :: cs := by rw [String.toList_append, hrest]
  have hmem : (base.toList ++ c :: cs).contains c = true := by simp
  -- from the end, the characters up to that `c` are passed over
  have hdropped :
      (base.toList ++ c :: cs).reverse.dropWhile (· != c) = c :: base.toList.reverse := by
    rw [List.reverse_append, List.reverse_cons, List.append_assoc, List.dropWhile_append_of_pos]
    · simp
    · intro x hx
      exact bne_iff_ne.2 fun heq => hcs (heq ▸ List.mem_reverse.1 hx)
  rw [beforeLast, htext, if_pos hmem, hdropped, List.drop_one, List.tail_cons, List.reverse_reverse,
    String.ofList_toList]

end IncludeAudit.Text
