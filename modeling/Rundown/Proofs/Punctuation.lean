import Rundown.Catalog.Query
import Rundown.Plan.Basic
import Rundown.Proofs.Ends
import Rundown.Proofs.Lowering

/-!
# Punctuation in names

A match key is made in a fixed order: the name is trimmed, then lowered, then
its punctuation is taken away.  Taking the punctuation away first is not always
the same.  A blank other than the space, kept off the end of the name by a
mark, would then be trimmed; and a capital sigma that ends a word would no
longer do so with the next word directly behind it, so that it is lowered to
the other small sigma.

These are the only two ways in which punctuation is seen in a key: the key of a
name is the key of its bare text exactly if neither of them happens.  Two names
with the same bare text, in which neither happens, are then the same for every
query, quota and separation.
-/

namespace Rundown

namespace Text

/-! ## Bare texts -/

/-- The characters that are no punctuation. -/
def bareChars (cs : List Char) : List Char :=
  cs.filter fun c => !isMatchPunctuation c

/-- The text without its punctuation. -/
def bare (s : String) : String :=
  String.ofList (bareChars s.toList)

theorem matchChars_eq (cs : List Char) :
    matchChars cs = bareChars (lowerFrom [] (dropEnds isBlank cs)) := rfl

@[simp]
theorem bareChars_append (front back : List Char) :
    bareChars (front ++ back) = bareChars front ++ bareChars back :=
  List.filter_append front back

@[simp]
theorem bareChars_reverse (cs : List Char) : bareChars cs.reverse = (bareChars cs).reverse :=
  List.filter_reverse

theorem bareChars_cons_of_punctuation {c : Char} (h : isMatchPunctuation c = true)
    (cs : List Char) : bareChars (c :: cs) = bareChars cs :=
  List.filter_cons_of_neg (by simp [h])

theorem bareChars_cons_of_not {c : Char} (h : isMatchPunctuation c = false) (cs : List Char) :
    bareChars (c :: cs) = c :: bareChars cs :=
  List.filter_cons_of_pos (by simp [h])

theorem bareChars_sublist (cs : List Char) : (bareChars cs).Sublist cs :=
  List.filter_sublist

theorem bareChars_eq_self_iff {cs : List Char} :
    bareChars cs = cs ↔ ∀ c ∈ cs, isMatchPunctuation c = false := by
  simp [bareChars, List.filter_eq_self]

theorem bareChars_bareChars (cs : List Char) : bareChars (bareChars cs) = bareChars cs := by
  rw [bareChars_eq_self_iff]
  intro c hc
  simpa using (List.mem_filter.mp hc).2

/-- Part of a bare text is bare. -/
theorem bareChars_of_sublist {part cs : List Char} (h : part.Sublist (bareChars cs)) :
    bareChars part = part := by
  rw [bareChars_eq_self_iff]
  intro c hc
  exact bareChars_eq_self_iff.mp (bareChars_bareChars cs) c (h.subset hc)

theorem bareChars_lowerAt_of_not {c : Char} (h : isMatchPunctuation c = false)
    (before after : List Char) : bareChars (lowerAt before c after) = lowerAt before c after :=
  bareChars_eq_self_iff.mpr fun _ hd => not_isMatchPunctuation_of_mem_lowerAt h hd

/-- What is dropped at the ends and what is left, without the punctuation. -/
theorem exists_split_bareChars (p : Char → Bool) (cs : List Char) : ∃ front back,
    cs = front ++ dropEnds p cs ++ back ∧ (∀ c ∈ front, p c = true) ∧ (∀ c ∈ back, p c = true) ∧
      bareChars cs = bareChars front ++ bareChars (dropEnds p cs) ++ bareChars back := by
  obtain ⟨front, back, hsplit, hfront, hback⟩ := exists_split_dropEnds p cs
  refine ⟨front, back, hsplit, hfront, hback, ?_⟩
  rw [← bareChars_append, ← bareChars_append, ← hsplit]

/-! ## Blanks that come to an end -/

/-- Once the punctuation of the trimmed text is gone, no blank stands at an end. -/
def UncoversNoBlank (cs : List Char) : Prop :=
  dropEnds isBlank (bareChars (dropEnds isBlank cs)) = bareChars (dropEnds isBlank cs)

/-- Trimming the bare text starts from what is left of the trimmed one. -/
theorem dropEnds_bareChars (cs : List Char) :
    dropEnds isBlank (bareChars cs) = dropEnds isBlank (bareChars (dropEnds isBlank cs)) := by
  obtain ⟨front, back, -, hfront, hback, hbare⟩ := exists_split_bareChars isBlank cs
  rw [hbare]
  exact dropEnds_append_append isBlank
    (fun c hc => hfront c ((bareChars_sublist front).subset hc))
    (fun c hc => hback c ((bareChars_sublist back).subset hc))

/-! ## Sigmas at the end of a word -/

/-- Each capital sigma in `cs`, of which `before` is what came earlier, nearest
first, ends a word in the bare text exactly if it does in the text. -/
def KeepsWordEnds (before cs : List Char) : Prop :=
  ∀ front back, cs = front ++ capitalSigma :: back →
    endsWord (bareChars (front.reverse ++ before)) (bareChars back) =
      endsWord (front.reverse ++ before) back

theorem keepsWordEnds_cons {before rest : List Char} {c : Char} :
    KeepsWordEnds before (c :: rest) ↔
      (c = capitalSigma → endsWord (bareChars before) (bareChars rest) = endsWord before rest) ∧
        KeepsWordEnds (c :: before) rest := by
  constructor
  · intro h
    refine ⟨fun hsigma => h [] rest (by rw [hsigma]; rfl), fun front back hrest => ?_⟩
    simpa using h (c :: front) back (by rw [hrest]; rfl)
  · rintro ⟨hhere, hlater⟩ front back hsplit
    cases front with
    | nil =>
        obtain ⟨hsigma, hback⟩ := List.cons.inj hsplit
        rw [← hback]
        exact hhere hsigma
    | cons d front =>
        obtain ⟨hd, hrest⟩ := List.cons.inj hsplit
        simpa [hd] using hlater front back hrest

theorem KeepsWordEnds.of_bare {before cs : List Char} (hbefore : bareChars before = before)
    (hcs : bareChars cs = cs) : KeepsWordEnds before cs := by
  intro front back hsplit
  rw [hsplit] at hcs
  have hall := bareChars_eq_self_iff.mp hcs
  have hfront : bareChars front = front :=
    bareChars_eq_self_iff.mpr fun c hc => hall c (List.mem_append_left _ hc)
  have hback : bareChars back = back :=
    bareChars_eq_self_iff.mpr fun c hc =>
      hall c (List.mem_append_right _ (List.mem_cons_of_mem _ hc))
  rw [bareChars_append, bareChars_reverse, hfront, hback, hbefore]

theorem lowerAt_eq_iff {before before' after after' : List Char} {c : Char} :
    lowerAt before c after = lowerAt before' c after' ↔
      (c = capitalSigma → endsWord before after = endsWord before' after') := by
  by_cases hsigma : c = capitalSigma
  · simp only [hsigma, lowerAt_capitalSigma, forall_const]
    cases endsWord before after <;> cases endsWord before' after' <;> simp
  · simp [lowerAt_of_ne hsigma, hsigma]

/-- Lowering first and taking the punctuation away first give the same exactly if
every sigma keeps its place in its word. -/
theorem bareChars_lowerFrom_iff (before cs : List Char) :
    bareChars (lowerFrom before cs) = lowerFrom (bareChars before) (bareChars cs) ↔
      KeepsWordEnds before cs := by
  induction cs generalizing before with
  | nil => exact iff_of_true rfl fun front back hsplit => by simp at hsplit
  | cons c rest ih =>
      rw [keepsWordEnds_cons, lowerFrom_cons, bareChars_append]
      cases hc : isMatchPunctuation c with
      | true =>
          have hsigma : c ≠ capitalSigma := ne_capitalSigma_of_isMatchPunctuation hc
          have hgone : bareChars [c] = [] := bareChars_cons_of_punctuation hc []
          rw [lowerAt_of_isMatchPunctuation hc, hgone, List.nil_append,
            bareChars_cons_of_punctuation hc, ← bareChars_cons_of_punctuation hc before, ih]
          simp [hsigma]
      | false =>
          rw [bareChars_lowerAt_of_not hc, bareChars_cons_of_not hc, lowerFrom_cons,
            ← bareChars_cons_of_not hc before, ← ih, eq_comm (a := endsWord _ _), ← lowerAt_eq_iff]
          constructor
          · intro h
            -- Either sigma is one character, so both sides split at the same place.
            exact List.append_inj h (by rw [length_lowerAt, length_lowerAt])
          · rintro ⟨hhere, hlater⟩
            rw [hhere, hlater]

/-! ## Keys -/

/-- The punctuation adds nothing to what is left of a lowered text. -/
theorem length_bareChars_lowerFrom (before cs : List Char) :
    (bareChars (lowerFrom before cs)).length = ((bareChars cs).flatMap lowerChar).length := by
  induction cs generalizing before with
  | nil => rfl
  | cons c rest ih =>
      rw [lowerFrom_cons, bareChars_append, List.length_append, ih]
      cases hc : isMatchPunctuation c with
      | true =>
          rw [lowerAt_of_isMatchPunctuation hc, bareChars_cons_of_punctuation hc,
            bareChars_cons_of_punctuation hc]
          exact Nat.zero_add _
      | false =>
          rw [bareChars_lowerAt_of_not hc, bareChars_cons_of_not hc, List.flatMap_cons,
            List.length_append, length_lowerAt]

theorem eq_nil_of_length_flatMap_lowerChar {cs : List Char}
    (h : (cs.flatMap lowerChar).length = 0) : cs = [] := by
  cases cs with
  | nil => rfl
  | cons c rest =>
      rw [List.flatMap_cons, List.length_append] at h
      have hc := List.length_pos_iff.mpr (lowerChar_ne_nil c)
      omega

/-- A lowered text is as long as its characters make it, each at least one: a
blank that is trimmed shows in the length of the key. -/
theorem uncoversNoBlank_of_length_eq {cs : List Char}
    (h : ((dropEnds isBlank (bareChars cs)).flatMap lowerChar).length =
      ((bareChars (dropEnds isBlank cs)).flatMap lowerChar).length) : UncoversNoBlank cs := by
  rw [dropEnds_bareChars] at h
  obtain ⟨front, back, hsplit, -, -⟩ :=
    exists_split_dropEnds isBlank (bareChars (dropEnds isBlank cs))
  have hlength := congrArg (fun cs => (cs.flatMap lowerChar).length) hsplit
  simp only [List.flatMap_append, List.length_append] at hlength
  have hfront : front = [] := eq_nil_of_length_flatMap_lowerChar (by omega)
  have hback : back = [] := eq_nil_of_length_flatMap_lowerChar (by omega)
  rw [hfront, hback, List.nil_append, List.append_nil] at hsplit
  exact hsplit.symm

/-- Trimming a bare text leaves a bare one. -/
theorem bareChars_dropEnds_bareChars (cs : List Char) :
    bareChars (dropEnds isBlank (bareChars cs)) = dropEnds isBlank (bareChars cs) :=
  bareChars_of_sublist (dropEnds_sublist isBlank (bareChars cs))

/-- The key of a bare text is its lowercase. -/
theorem matchChars_bareChars (cs : List Char) :
    matchChars (bareChars cs) = lowerFrom [] (dropEnds isBlank (bareChars cs)) := by
  have hpart := bareChars_dropEnds_bareChars cs
  have hkept := (bareChars_lowerFrom_iff [] (dropEnds isBlank (bareChars cs))).mpr
    (KeepsWordEnds.of_bare rfl hpart)
  rw [hpart] at hkept
  exact hkept

/-- The punctuation of a text is seen neither in its blanks nor in its sigmas. -/
structure IdlePunctuation (cs : List Char) : Prop where
  blanks : UncoversNoBlank cs
  sigmas : KeepsWordEnds [] (dropEnds isBlank cs)

theorem matchChars_bareChars_iff (cs : List Char) :
    matchChars (bareChars cs) = matchChars cs ↔ IdlePunctuation cs := by
  constructor
  · intro h
    -- The sigmas can be compared only when both texts are trimmed alike, which the
    -- lengths of the keys tell without them.
    have hlength := congrArg List.length h
    rw [matchChars_eq, matchChars_eq, length_bareChars_lowerFrom, length_bareChars_lowerFrom,
      bareChars_dropEnds_bareChars] at hlength
    have hblanks : UncoversNoBlank cs := uncoversNoBlank_of_length_eq hlength
    rw [matchChars_bareChars, matchChars_eq, dropEnds_bareChars, hblanks] at h
    exact ⟨hblanks, (bareChars_lowerFrom_iff [] _).mp h.symm⟩
  · intro h
    rw [matchChars_bareChars, matchChars_eq, dropEnds_bareChars, h.blanks]
    exact ((bareChars_lowerFrom_iff [] _).mpr h.sigmas).symm

end Text

/-! ## What compares names -/

/-- Nothing that compares artists tells the two names apart: not a query that
wants one of them, a search for one, a query over tracks by one, nor the keys by
which quotas count and tracks are kept apart. -/
structure SameArtist (s t : String) : Prop where
  wanted : ∀ (q : Query) (track : Track),
    { q with artist := some s }.admits track = { q with artist := some t }.admits track
  searched : ∀ (fields : List Attribute) (track : Track),
    (TextSearch.mk s fields).finds track = (TextSearch.mk t fields).finds track
  asked : ∀ (q : Query) (track : Track),
    q.admits { track with artist := s } = q.admits { track with artist := t }
  counted : ∀ (q : Quota) (track : Track),
    q.covers { track with artist := s } = q.covers { track with artist := t }
  limited : ∀ (q : Quota) (track : Track), q.field = .artist →
    { q with value := s }.covers track = { q with value := t }.covers track
  key : ∀ (a : Attribute) (track : Track),
    a.key? { track with artist := s } = a.key? { track with artist := t }

theorem Attribute.keyFor?_artist (s : String) :
    artist.keyFor? s = if (Text.matchKey s).isEmpty then none else some (Text.matchKey s) := rfl

/-- An artist enters a key by its match key alone. -/
theorem Attribute.key?_withArtist {s t : String} (h : Text.matchKey s = Text.matchKey t)
    (a : Attribute) (track : Track) :
    a.key? { track with artist := s } = a.key? { track with artist := t } := by
  cases a with
  | artist =>
      change artist.keyFor? s = artist.keyFor? t
      rw [keyFor?_artist, keyFor?_artist, h]
  | title | album | label | genre | mood | language => rfl

/-- A search looks into an artist by its match key alone. -/
theorem TextSearch.finds_withArtist {s t : String} (h : Text.matchKey s = Text.matchKey t)
    (search : TextSearch) (track : Track) :
    search.finds { track with artist := s } = search.finds { track with artist := t } := by
  have hvalue : ∀ a : Attribute, Text.matchKey (a.value { track with artist := s }) =
      Text.matchKey (a.value { track with artist := t }) := by
    intro a
    cases a with
    | artist => exact h
    | title | album | label | genre | mood | language => rfl
  simp only [finds, hvalue]

theorem SameArtist.of_matchKey {s t : String} (h : Text.matchKey s = Text.matchKey t) :
    SameArtist s t where
  wanted q track := by simp only [Query.admits, Option.all_some, h]
  searched fields track := by simp only [TextSearch.finds, h]
  asked q track := by
    simp only [Query.admits, h, TextSearch.finds_withArtist h]
  counted q track := by
    rw [Quota.covers, Quota.covers, Attribute.key?_withArtist h]
  limited q track hfield := by
    have hkey : Attribute.artist.keyFor? s = Attribute.artist.keyFor? t := by
      rw [Attribute.keyFor?_artist, Attribute.keyFor?_artist, h]
    simp only [Quota.covers, hfield, hkey]
  key := Attribute.key?_withArtist h

namespace Text

theorem matchKey_bare_iff (s : String) :
    matchKey (bare s) = matchKey s ↔ IdlePunctuation s.toList := by
  rw [← matchChars_bareChars_iff, matchKey, matchKey, bare, String.toList_ofList,
    String.ofList_inj]

/-- The key of a name is the key of its bare text exactly if its punctuation is
idle, and names with the same bare text and idle punctuation are the same. -/
theorem matchKey_bare_iff_and_sameArtist (s t : String) :
    (matchKey (bare s) = matchKey s ↔ IdlePunctuation s.toList) ∧
      (bare s = bare t → IdlePunctuation s.toList → IdlePunctuation t.toList →
        matchKey s = matchKey t ∧ SameArtist s t) := by
  refine ⟨matchKey_bare_iff s, fun hbare hs ht => ?_⟩
  have hkey : matchKey s = matchKey t :=
    calc matchKey s = matchKey (bare s) := ((matchKey_bare_iff s).mpr hs).symm
      _ = matchKey (bare t) := by rw [hbare]
      _ = matchKey t := (matchKey_bare_iff t).mpr ht
  exact ⟨hkey, .of_matchKey hkey⟩

/-- A final sigma before a mark, and a mark within a word. -/
theorem matchKey_bare_iff_and_sameArtist_sample :
    bare "ΟΔΟΣ!" = bare " Ο'ΔΟΣ" ∧ IdlePunctuation "ΟΔΟΣ!".toList ∧
      IdlePunctuation " Ο'ΔΟΣ".toList ∧ matchKey "ΟΔΟΣ!" = matchKey " Ο'ΔΟΣ" ∧
      SameArtist "ΟΔΟΣ!" " Ο'ΔΟΣ" := by
  have hbare : bare "ΟΔΟΣ!" = bare " Ο'ΔΟΣ" := by decide +kernel
  have hmark : IdlePunctuation "ΟΔΟΣ!".toList :=
    (matchChars_bareChars_iff _).mp (by decide +kernel)
  have hwithin : IdlePunctuation " Ο'ΔΟΣ".toList :=
    (matchChars_bareChars_iff _).mp (by decide +kernel)
  exact ⟨hbare, hmark, hwithin,
    (matchKey_bare_iff_and_sameArtist _ _).2 hbare hmark hwithin⟩

/-- A sigma that ends a word only with its space, and a tab behind a stop. -/
theorem matchKey_bare_ne :
    bare "ΝΙΚΟΣ ΒΕΡΤΗΣ" = bare "ΝΙΚΟΣΒΕΡΤΗΣ" ∧
      matchKey (bare "ΝΙΚΟΣ ΒΕΡΤΗΣ") ≠ matchKey "ΝΙΚΟΣ ΒΕΡΤΗΣ" ∧
      Attribute.artist.keyFor? "ΝΙΚΟΣ ΒΕΡΤΗΣ" ≠ Attribute.artist.keyFor? "ΝΙΚΟΣΒΕΡΤΗΣ" ∧
      matchKey (bare ".\tx") ≠ matchKey ".\tx" := by
  decide +kernel

end Text

end Rundown
