import Rundown.Proofs.Expressions
import Rundown.Proofs.Punctuation

/-!
# Keys of stored texts

A database makes the key of a stored text by an expression, a catalog in memory
by its match key.  The two differ in what they take for a blank and in which
letters they lower.  The expression has a value for every text; it is the match
key exactly if no other blank than the space stands at an end of the text and
every letter beyond ASCII is its own lowercase.

An accent on a capital letter is enough to break this: the letter stays a capital
in the database, while the key that a query looks for has the small one.
-/

namespace Rundown

namespace Text

/-! ## Lowering within ASCII and beyond -/

theorem bareChars_map_toLower (cs : List Char) :
    bareChars (cs.map Char.toLower) = (bareChars cs).map Char.toLower := by
  simp [bareChars, List.filter_map, Function.comp_def]

theorem length_flatMap_lowerChar {cs : List Char} (h : dottedCapitalI ∉ cs) :
    (cs.flatMap lowerChar).length = cs.length := by
  induction cs with
  | nil => rfl
  | cons c rest ih =>
      have hc : c ≠ dottedCapitalI := fun heq => h (by rw [heq]; exact List.mem_cons_self)
      rw [List.flatMap_cons, List.length_append, length_lowerChar hc,
        ih fun hrest => h (List.mem_cons_of_mem c hrest), List.length_cons, Nat.add_comm]

/-- A character whose lowercase starts as within ASCII is lowered as within ASCII,
wherever it stands. -/
theorem lowerChar_of_lowerAt_eq_cons {before after more : List Char} {c : Char}
    (h : lowerAt before c after = c.toLower :: more) : lowerChar c = [c.toLower] := by
  by_cases hsigma : c = capitalSigma
  · have hself : capitalSigma.toLower = 'Σ' := by decide
    rw [hsigma, lowerAt_capitalSigma, hself] at h
    split at h
    · exact absurd (List.cons.inj h).1 (by decide)
    · exact absurd (List.cons.inj h).1 (by decide)
  · rw [lowerAt_of_ne hsigma] at h
    by_cases hdotted : c = dottedCapitalI
    · have hself : dottedCapitalI.toLower = 'İ' := by decide
      rw [hdotted, lowerChar_dottedCapitalI, hself] at h
      exact absurd (List.cons.inj h).1 (by decide)
    · have hlength := length_lowerChar hdotted
      rw [h, List.length_cons, Nat.add_eq_right, List.length_eq_zero_iff] at hlength
      rw [h, hlength]

theorem lowerAt_of_lowerChar {c : Char} (h : lowerChar c = [c.toLower])
    (before after : List Char) : lowerAt before c after = [c.toLower] := by
  have hsigma : c ≠ capitalSigma := by
    rintro rfl
    have hself : capitalSigma.toLower = 'Σ' := by decide
    rw [lowerChar_capitalSigma, hself] at h
    exact absurd (List.cons.inj h).1 (by decide)
  rw [lowerAt_of_ne hsigma, h]

/-- Lowering leaves what lowering within ASCII leaves exactly if it does so for each
character. -/
theorem bareChars_lowerFrom_eq_map_iff (before cs : List Char) :
    bareChars (lowerFrom before cs) = (bareChars cs).map Char.toLower ↔
      ∀ c ∈ cs, lowerChar c = [c.toLower] := by
  induction cs generalizing before with
  | nil => simp [bareChars, lowerFrom]
  | cons c rest ih =>
      rw [lowerFrom_cons, bareChars_append, List.forall_mem_cons, ← ih (c :: before)]
      cases hc : isMatchPunctuation c with
      | true =>
          obtain ⟨-, -, hcase, hself⟩ := lowerChar_of_isMatchPunctuation hc
          rw [lowerAt_of_isMatchPunctuation hc, bareChars_cons_of_punctuation hc,
            bareChars_cons_of_punctuation hc, hself, toLower_of_not_isUpper hcase]
          simp [bareChars]
      | false =>
          rw [bareChars_lowerAt_of_not hc, bareChars_cons_of_not hc, List.map_cons]
          constructor
          · intro h
            have hhere : lowerChar c = [c.toLower] := by
              obtain ⟨d, more, hlowered⟩ :=
                List.exists_cons_of_ne_nil (lowerAt_ne_nil before c rest)
              rw [hlowered, List.cons_append] at h
              rw [(List.cons.inj h).1] at hlowered
              exact lowerChar_of_lowerAt_eq_cons hlowered
            rw [lowerAt_of_lowerChar hhere, List.singleton_append] at h
            exact ⟨hhere, (List.cons.inj h).2⟩
          · rintro ⟨hhere, hlater⟩
            rw [lowerAt_of_lowerChar hhere, hlater, List.singleton_append]

end Text

namespace Database

open Text

/-! ## Stored keys -/

theorem bareChars_dropEnds_space (cs : List Char) :
    bareChars (dropEnds (· == ' ') cs) = bareChars cs := by
  obtain ⟨front, back, -, hfront, hback, hbare⟩ := exists_split_bareChars (· == ' ') cs
  have hgone : ∀ part : List Char, (∀ c ∈ part, (c == ' ') = true) → bareChars part = [] := by
    intro part hpart
    refine List.filter_eq_nil_iff.mpr fun c hc => ?_
    rw [beq_iff_eq.mp (hpart c hc)]
    decide
  rw [hbare, hgone front hfront, hgone back hback, List.nil_append, List.append_nil]

/-- The order in which a database trims, lowers and takes away is of no account. -/
theorem storedKey_eq_map (cs : List Char) :
    storedKey cs = (bareChars cs).map Char.toLower := by
  have hbare : storedKey cs = bareChars (folded cs) := without_eq_filter matchPunctuation _
  rw [hbare, folded, bareChars_map_toLower, bareChars_dropEnds_space]

/-- The only blank that is punctuation is the space. -/
theorem eq_space_of_isBlank {c : Char} (hblank : isBlank c = true)
    (hpunctuation : isMatchPunctuation c = true) : c = ' ' := by
  have hall : ∀ c ∈ matchPunctuation, isBlank c = true → c = ' ' := by
    simp [matchPunctuation, isBlank]
  exact hall c (List.contains_iff_mem.mp hpunctuation) hblank

/-- Blanks of which nothing is left without punctuation are spaces. -/
theorem all_space_of_bareChars_eq_nil {part : List Char} (h : bareChars part = [])
    (hblank : ∀ c ∈ part, isBlank c = true) : ∀ c ∈ part, (c == ' ') = true := by
  intro c hc
  have hpunctuation : isMatchPunctuation c = true := by
    simpa using List.filter_eq_nil_iff.mp h c hc
  exact beq_iff_eq.mpr (eq_space_of_isBlank (hblank c hc) hpunctuation)

theorem isBlank_of_space {c : Char} (h : (c == ' ') = true) : isBlank c = true := by
  rw [beq_iff_eq.mp h]
  decide

/-- Only spaces stand at the ends of the text, and every character is lowered as
within ASCII. -/
structure AsciiKeyed (cs : List Char) : Prop where
  ends : dropEnds isBlank cs = dropEnds (· == ' ') cs
  letters : ∀ c ∈ cs, lowerChar c = [c.toLower]

/-- A stored key with a dotted capital I is no match key. -/
theorem notMem_of_storedKey_eq {cs : List Char} (h : storedKey cs = matchChars cs) :
    dottedCapitalI ∉ bareChars cs := by
  intro hdotted
  have hself : dottedCapitalI.toLower = dottedCapitalI := by decide
  have hstored : dottedCapitalI ∈ storedKey cs := by
    rw [storedKey_eq_map]
    exact List.mem_map.mpr ⟨dottedCapitalI, hdotted, hself⟩
  rw [h, matchChars_eq] at hstored
  exact dottedCapitalI_notMem_lowerFrom [] _ ((bareChars_sublist _).subset hstored)

/-- Apart from the dotted capital I the keys are as long as what they are made of:
nothing but spaces has been trimmed. -/
theorem dropEnds_eq_of_storedKey_eq {cs : List Char} (h : storedKey cs = matchChars cs) :
    dropEnds isBlank cs = dropEnds (· == ' ') cs := by
  obtain ⟨front, back, hsplit, hfront, hback, hbare⟩ := exists_split_bareChars isBlank cs
  have hdotted : dottedCapitalI ∉ bareChars (dropEnds isBlank cs) := by
    have hall := notMem_of_storedKey_eq h
    rw [hbare, List.mem_append, List.mem_append] at hall
    exact fun hmem => hall (.inl (.inr hmem))
  -- Without that letter a key has a character for each of its text, so none is missing.
  have hlength := congrArg List.length h
  rw [storedKey_eq_map, List.length_map, matchChars_eq, length_bareChars_lowerFrom,
    length_flatMap_lowerChar hdotted, hbare, List.length_append, List.length_append] at hlength
  have hnoFront : bareChars front = [] := List.length_eq_zero_iff.mp (by omega)
  have hnoBack : bareChars back = [] := List.length_eq_zero_iff.mp (by omega)
  have hspaces : dropEnds (· == ' ') cs = dropEnds (· == ' ') (dropEnds isBlank cs) := by
    conv_lhs => rw [hsplit]
    exact dropEnds_append_append _ (all_space_of_bareChars_eq_nil hnoFront hfront)
      (all_space_of_bareChars_eq_nil hnoBack hback)
  rw [hspaces, dropEnds_dropEnds_of_imp fun c => isBlank_of_space]

theorem storedKey_eq_matchChars_iff (cs : List Char) :
    storedKey cs = matchChars cs ↔ AsciiKeyed cs := by
  have hletters : (∀ c ∈ dropEnds (· == ' ') cs, lowerChar c = [c.toLower]) ↔
      ∀ c ∈ cs, lowerChar c = [c.toLower] :=
    forall_mem_dropEnds_iff _ cs fun c hspace => by
      rw [beq_iff_eq.mp hspace]
      decide
  constructor
  · intro h
    have hends := dropEnds_eq_of_storedKey_eq h
    rw [storedKey_eq_map, ← bareChars_dropEnds_space, matchChars_eq, hends, eq_comm,
      bareChars_lowerFrom_eq_map_iff, hletters] at h
    exact ⟨hends, h⟩
  · rintro ⟨hends, h⟩
    rw [storedKey_eq_map, ← bareChars_dropEnds_space, matchChars_eq, hends, eq_comm,
      bareChars_lowerFrom_eq_map_iff, hletters]
    exact h

variable (row : MediaRow) (a : Attribute)

/-- The expression by which stored names are compared has a value in every row, and
it is the match key of the name exactly if ASCII decides its blanks and letters. -/
theorem exists_evaluate?_normalizedColumn :
    ∃ key, Expression.evaluate? row (normalizedColumn a.name) = some key ∧
      (key = matchKey (attributeText row a) ↔ AsciiKeyed (attributeText row a).toList) := by
  refine ⟨_, evaluate?_normalizedColumn row a, ?_⟩
  rw [matchKey, String.ofList_inj, storedKey_eq_matchChars_iff]

/-- The accented capital is kept by the database and lowered by the match key. -/
theorem evaluate?_normalizedColumn_ne :
    Expression.evaluate? (mediaOfRow [("artist", .text "BEYONCÉ")]) (normalizedColumn "artist") ≠
      some (matchKey "BEYONCÉ") := by
  have hkeys : storedKey "BEYONCÉ".toList ≠ matchChars "BEYONCÉ".toList := by decide +kernel
  have hvalue := evaluate?_normalizedColumn (mediaOfRow [("artist", .text "BEYONCÉ")]) .artist
  change Expression.evaluate? _ (normalizedColumn Attribute.artist.name) ≠ _
  rw [hvalue]
  intro heq
  exact hkeys (String.ofList_inj.mp (Option.some.inj heq))

end Database

end Rundown
