import BBCode.Proofs.Box.Order
import BBCode.Proofs.Box.Widgets
import BBCode.Proofs.Card.Steps
import BBCode.Proofs.Guard.Exact

/-!
# BBCode.Proofs.Card.Unique

The numbers of hover cards on a page. In front of the rule for profiles nothing on the way to the
page holds the word that the numbers start with; the rule writes each number in one card and in one
link to it; what comes behind the rule doubles none of them.

* `wedge_stamp`: a number is complete as soon as it is written.
* `wedge_profileLink`: a card and its link hold their own number once each.
* `spares_restore`: what comes back from code regions holds no number.
* `cards_unique`: so no number is on a page twice, and all are below the number of profiles.
-/

namespace BBCode

namespace Card

/-- A number behind one of the words, as it is written. -/
def stamp (w : Text) (j : Nat) : Text := w ++ (decimal j ++ ['"'])

section

variable {w v : Text}

theorem skips_digits (hw : w ∈ numberWords) (j : Nat) :
    Skips (readWord? id w) (decimal j ++ ['"']) := by
  have hhead : ∀ w ∈ numberWords, ∃ p t, w = p :: t ∧ p.isDigit = false ∧ p ≠ '"' := by
    simp only [numberWords, List.forall_mem_cons]
    exact ⟨⟨_, _, rfl, by decide, by decide⟩, ⟨_, _, rfl, by decide, by decide⟩, nofun⟩
  obtain ⟨p, t, rfl, hdigit, hquote⟩ := hhead w hw
  refine skips_of_head_ne fun c hc => ?_
  rintro rfl
  rcases List.mem_append.1 hc with hc | hc
  · exact absurd ((isDigit_of_mem_decimal hc).symm.trans hdigit) (by decide)
  · exact hquote (List.mem_singleton.1 hc)

/-- A word with a number and the mark behind it is complete, and counts once. -/
theorem wedge_stamp_self (hw : w ∈ numberWords) (j k : Nat) :
    (numbered hw k).Wedge (stamp w j) (if j = k then 1 else 0) := by
  have hself : ∀ w ∈ numberWords, w ≠ [] ∧
      (avoids id w w.tail && clashesAll id w w.tail) = true := by decide
  obtain ⟨hne, hclear⟩ := hself w hw
  rw [Bool.and_eq_true] at hclear
  obtain ⟨p, t, rfl⟩ := List.exists_cons_of_ne_nil hne
  have hskips : Skips (readWord? id (p :: t)) (t ++ (decimal j ++ ['"'])) :=
    (skips_of_avoids hclear.1).append (skips_digits hw j)
  refine ⟨(stops_of_clashesAll hclear.2).append _, fun y hy v hv => ?_, fun y _ => ?_⟩
  · rcases List.suffix_cons_iff.1 hv with heq | hv
    · have heq : (p :: t) ++ v = (p :: t) ++ (decimal j ++ '"' :: y) := heq.trans (by simp)
      exact ⟨decimal j, y, fun d hd => isDigit_of_mem_decimal hd, List.append_cancel_left heq⟩
    · exact Mark.holds_append_of_skips (T := numbered hw k) hskips hy v hv
  · have hnumber : (readWord? id (p :: t ++ (decimal k ++ ['"'])) (stamp (p :: t) j ++ y)).isSome →
        j = k := by
      rw [isSome_readWord?, List.map_id, stamp, List.append_assoc, List.prefix_append_right_inj]
      rintro ⟨b, hb⟩
      rw [List.append_assoc, List.append_assoc] at hb
      have hquote : ∀ i, '"' ∉ decimal i := not_mem_decimal (by decide)
      exact decimal_inj (append_cons_inj (hquote k) (hquote j) hb).1.symm
    have hrest := Mark.count_append_of_skips (T := numbered hw k) hskips y
    have hfirst : (numbered hw k).count (stamp (p :: t) j ++ y) =
        (if (readWord? id (p :: t ++ (decimal k ++ ['"']))
          (stamp (p :: t) j ++ y)).isSome then 1 else 0) +
            (numbered hw k).count (t ++ (decimal j ++ ['"']) ++ y) := rfl
    rw [hfirst, hrest]
    split
    · rename_i h
      rw [if_pos (hnumber h)]
    · exact Nat.add_le_add_right (Nat.zero_le _) _

/-- A word with a number and the mark behind it holds that number, once. -/
theorem wedge_stamp (hw : w ∈ numberWords) (hv : v ∈ numberWords) (j k : Nat) :
    (numbered hw k).Wedge (stamp v j) (if v = w ∧ j = k then 1 else 0) := by
  have hother : ∀ w ∈ numberWords, ∀ v ∈ numberWords, v ≠ w →
      (avoids id w v && clashesAll id v w.tail) = true := by decide
  by_cases hvw : v = w
  · subst hvw
    simpa using wedge_stamp_self hw j k
  · have hclear := hother w hw v hv hvw
    rw [Bool.and_eq_true] at hclear
    rw [if_neg fun h => hvw h.1]
    exact .of_skips ((skips_of_avoids hclear.1).append (skips_digits hw j))
      ((stops_of_clashesAll hclear.2).append _)

/-! ## Links to profiles -/

/-- The two numbers in the markup of a profile, and what is around them. -/
theorem profileLink_eq (base id name : Text) (j : Nat) :
    Html.profileLink base id name j =
      "<a class=\"js-usercard\" href=\"".toList ++ (base ++ id) ++
        "\" data-user-id=\"".toList ++ id ++
        ("\" ".toList ++ stamp "data-tooltip-id=\"qtip-".toList j ++
          " target=\"_blank\" rel=\"noopener noreferrer\">".toList) ++ name ++
        ("</a>".toList ++ stamp "<span id=\"qtip-".toList j ++
          " class=\"qtip qtip--user-card\" data-user-id=\"".toList) ++ id ++
        "\" hidden></span>".toList := by
  have h1 : "\" data-tooltip-id=\"".toList ++ Html.cardPrefix =
      "\" ".toList ++ "data-tooltip-id=\"qtip-".toList := by decide
  have h2 : "</a><span id=\"".toList ++ Html.cardPrefix =
      "</a>".toList ++ "<span id=\"qtip-".toList := by decide
  have h3 : "\" target=\"_blank\" rel=\"noopener noreferrer\">".toList =
      ['"'] ++ " target=\"_blank\" rel=\"noopener noreferrer\">".toList := by decide
  have h4 : "\" class=\"qtip qtip--user-card\" data-user-id=\"".toList =
      ['"'] ++ " class=\"qtip qtip--user-card\" data-user-id=\"".toList := by decide
  have hsplit : ∀ {a b c d : Text}, a ++ b = c ++ d → ∀ r, a ++ (b ++ r) = c ++ (d ++ r) := by
    intro a b c d h r
    rw [← List.append_assoc, h, List.append_assoc]
  unfold Html.profileLink stamp
  rw [h3, h4]
  simp only [List.append_assoc]
  rw [hsplit h1, hsplit h2]

/-- A card and its link hold their own number once each, and no other. -/
theorem wedge_profileLink (hw : w ∈ numberWords) {base user name : Text}
    (haddress : ¬ w <:+: base ++ user) (huser : ¬ w <:+: user) (hname : ¬ w <:+: name) (j k : Nat) :
    ∃ n ≤ if j = k then 1 else 0,
      (numbered hw k).Wedge (Html.profileLink base user name j) n := by
  obtain ⟨haddress, haddress'⟩ := Mark.of_not_isInfix (T := numbered hw k) haddress
  obtain ⟨huser, huser'⟩ := Mark.of_not_isInfix (T := numbered hw k) huser
  obtain ⟨hname, hname'⟩ := Mark.of_not_isInfix (T := numbered hw k) hname
  -- the class of a card starts like the numbers of cards
  have hclass : (numbered hw k).Wedge
      " class=\"qtip qtip--user-card\" data-user-id=\"".toList 0 := by
    have hclear : ∀ w ∈ numberWords,
        (avoids id w " class=\"qtip qtip--user-card\" data-user-id=\"".toList &&
          clashesAll id " class=\"qtip qtip--user-card\" data-user-id=\"".toList
            w.tail) = true := by decide
    exact .of_clashes (hclear w hw)
  have hlink := wedge_stamp hw (v := "data-tooltip-id=\"qtip-".toList) (by decide) j k
  have hcard := wedge_stamp hw (v := "<span id=\"qtip-".toList) (by decide) j k
  rw [profileLink_eq]
  refine ⟨_, ?_, .part (.around (.around (.part (.literal (by decide)) haddress
    (.literal (by decide))) huser (.append (.append (.literal (by decide)) hlink)
      (.literal (by decide)))) hname (.append (.append (.literal (by decide)) hcard) hclass)) huser
        (.literal (by decide))⟩
  rw [haddress', huser', hname']
  by_cases hjk : j = k
  · rw [if_pos hjk]
    have hne : "data-tooltip-id=\"qtip-".toList ≠ "<span id=\"qtip-".toList := by decide
    by_cases hcase : "data-tooltip-id=\"qtip-".toList = w
    · rw [if_pos ⟨hcase, hjk⟩, if_neg fun h => hne (hcase.trans h.1.symm)]
    · rw [if_neg fun h => hcase h.1]
      split <;> decide
  · rw [if_neg hjk, if_neg fun h => hjk h.2, if_neg fun h => hjk h.2]

theorem suffix_numberWord : ∀ w ∈ numberWords, Html.cardPrefix <:+ w := by decide

/-- An address that is put together holds no word for a number, if none of its parts holds what the
numbers start with and the first does not end shortly behind the start of it. -/
theorem not_infix_address (hw : w ∈ numberWords) {base id : Text}
    (hbase : ¬ Html.cardPrefix <:+: base) (hid : ¬ Html.cardPrefix <:+: id)
    (hend : ∀ n < 5, 0 < n → ¬ w.take (w.length - n) <:+ base) : ¬ w <:+: base ++ id := by
  have hstart := suffix_numberWord w hw
  rintro ⟨a, b, h⟩
  rcases List.append_eq_append_iff.1 h with ⟨c, rfl, -⟩ | ⟨c, hc, rfl⟩
  · exact hbase (hstart.isInfix.trans ⟨a, c, rfl⟩)
  · rcases List.append_eq_append_iff.1 hc with ⟨d, rfl, rfl⟩ | ⟨d, rfl, rfl⟩
    · have hcut : d = (d ++ c).take ((d ++ c).length - c.length) := by simp
      have hzero : 0 < c.length := by
        refine List.length_pos_iff.2 ?_
        rintro rfl
        rw [List.append_nil] at hstart
        exact hbase (hstart.isInfix.trans ⟨a, [], by simp⟩)
      by_cases hlong : 5 ≤ c.length
      · have hc : Html.cardPrefix <:+ c :=
          List.suffix_of_suffix_length_le hstart (List.suffix_append d c) hlong
        exact hid (hc.isInfix.trans ⟨[], b, rfl⟩)
      · exact hend c.length (Nat.lt_of_not_le hlong) hzero (hcut ▸ List.suffix_append a d)
    · exact hid (hstart.isInfix.trans ⟨d, b, rfl⟩)

theorem not_infix_of_absent (hw : w ∈ numberWords) {s : Text} (h : absent.Holds s) :
    ¬ w <:+: s := by
  exact fun hi => holds_absent.1 h ((suffix_numberWord w hw).isInfix.trans hi)

end

def profilePair : TagPair := ⟨"profile".toList, some .any⟩

/-- The rule for profiles makes a number of those that it takes, once, if there were none. -/
theorem holds_profiles {o : Options} {w : Text} (hw : w ∈ numberWords) (k : Nat)
    (hbase : ¬ Html.cardPrefix <:+: o.profileUrl)
    (hend : ∀ n < 5, 0 < n → ¬ w.take (w.length - n) <:+ o.profileUrl) {s : Text}
    (hs : absent.Holds s) (i : Nat) :
    (numbered hw k).Holds (Piece.fillFrom (Stage.profile o) i (profilePair.pattern.pieces s)).1 ∧
      (numbered hw k).count (Piece.fillFrom (Stage.profile o) i (profilePair.pattern.pieces s)).1 +
          (if k < i then 1 else 0) ≤
        if k < (Piece.fillFrom (Stage.profile o) i (profilePair.pattern.pieces s)).2 then 1
        else 0 := by
  have hfree : ∀ {t : Text}, absent.Holds t →
      (numbered hw k).Holds t ∧ (numbered hw k).count t = 0 :=
    fun ht => Mark.of_not_isInfix (not_infix_of_absent hw ht)
  obtain ⟨hholds, hzero⟩ := hfree hs
  -- `k` may be written once, by the profile that brings the count behind it
  have hall := Mark.spares_fillFrom (T := numbered hw k) (p := profilePair.pattern)
    (f := Stage.profile o) (G := fun i => if k < i then 1 else 0) (s := s)
    (fun {t a r} ht hread j => ?_) [] i hholds
  · rw [List.nil_append, List.nil_append, hzero, Nat.zero_add] at hall
    exact hall
  · have ht : absent.Holds t := hs.of_suffix ht
    obtain ⟨-, hr, hparam, hbody, -⟩ := Mark.of_readPair? (T := absent) hread
      (fun v hv => by cases hv; exact ⟨_, rfl, trivial⟩) ht
    obtain ⟨hbar, -⟩ := Mark.of_readPair? (T := numbered hw k) hread
      (fun v hv => by cases hv; exact ⟨_, rfl, bars_bracket⟩) (hfree ht).1
    obtain ⟨n, hn, hwedge⟩ := wedge_profileLink hw
      (not_infix_address hw hbase (holds_absent.1 hparam) hend) (not_infix_of_absent hw hparam)
      (not_infix_of_absent hw hbody) j k
    refine .swap hbar hr hwedge ?_
    rw [(hfree (ht.of_suffix hr)).2, (hfree ht).2]
    split at hn <;> split <;> split <;> omega

/-! ## Code regions -/

theorem absent_escape {s : Text} (x : Text) (h : absent.Holds (x ++ s)) :
    absent.Holds (x ++ s.escape) := by
  induction s generalizing x with
  | nil => exact h
  | cons c s ih =>
    have hx : absent.Holds x := absent_of_isInfix h (List.prefix_append x _).isInfix
    have hs : absent.Holds (x ++ [c] ++ s) := by rwa [← List.append_cons]
    have hrest := ih [] (absent_of_isInfix h ⟨x ++ [c], [], by simp⟩)
    rw [List.nil_append] at hrest
    rw [Text.escape, List.flatMap_cons]
    rcases Text.escapeChar_cases c with heq | heq | heq | ⟨heq, -, -⟩ <;> rw [heq]
    · exact (Mark.Wedge.seam (.literal (by decide)) hx hrest).1
    · exact (Mark.Wedge.seam (.literal (by decide)) hx hrest).1
    · exact (Mark.Wedge.seam (.literal (by decide)) hx hrest).1
    · rw [← List.append_assoc]
      exact ih (x ++ [c]) hs

open Guarded

theorem absent_placeholder (k : Nat) : absent.Wedge (placeholder k) 0 := by
  have hdigit : 'q' ∉ decimal k := not_mem_decimal (by decide) k
  have hq : ∀ c ∈ placeholder k, id c ≠ 'q' := by
    rintro c hc rfl
    simp [placeholder, placeholderStart, placeholderStop, hdigit] at hc
  exact .of_skips (skips_of_head_ne hq) (stops_of_not_mem (by decide) _)

/-- The code regions of a document without the word are without it, and so is what is left. -/
theorem absent_protect {source : Text} (h : absent.Holds (strip source)) (m : CodeMatching) :
    absent.Holds (protect source m).text ∧ ∀ b ∈ (protect source m).blocks, absent.Holds b := by
  constructor
  · refine (Mark.spares_fillFrom (G := fun _ => 0) (fun {t a r} _ hread k => ?_) [] 0 h).1
    have hr : r <:+ t := (read?_source hread) ▸ List.suffix_append _ r
    refine .of_wedge (fun _ _ => trivial) hr (absent_placeholder k) ?_
    rw [Nat.zero_add]
    exact Mark.count_suffix hr
  · intro b hb
    obtain ⟨p, hp, hb⟩ := List.mem_filterMap.1 hb
    cases p with
    | plain c => cases hb
    | found r =>
      cases hb
      have hsource : r.source <:+: strip source := by
        rw [← flatMap_source_pieces m (strip source), List.flatMap_def]
        exact List.infix_of_mem_flatten (List.mem_map_of_mem hp)
      exact absent_of_isInfix h (List.IsInfix.trans ⟨r.opening, r.closing, rfl⟩ hsource)

theorem spares_restore {w : Text} (hw : w ∈ numberWords) (k : Nat) {blocks : List Text}
    (hb : ∀ b ∈ blocks, absent.Holds b) (html : Text) :
    (numbered hw k).Spares html (restore blocks html) := by
  have hone : ∀ bs : List (Text × Nat), (∀ b ∈ bs, absent.Holds b.1) → ∀ x,
      (numbered hw k).Spares x (bs.foldl restoreOne x) := by
    intro bs
    induction bs with
    | nil => exact fun _ x => .refl x
    | cons b bs ih =>
      intro h x
      obtain ⟨hb, hbs⟩ := List.forall_mem_cons.1 h
      obtain ⟨hholds, hzero⟩ := Mark.of_not_isInfix (T := numbered hw k)
        (not_infix_of_absent hw (Mark.spares_trimBreaks _ (absent_escape [] hb)).1)
      have hblock : (numbered hw k).Wedge (codeBlock b.1) 0 := by
        rw [← hzero]
        exact .between hholds (by decide)
      have hcuts : (numbered hw k).Cuts
          (Pattern.word id (placeholder b.2) (placeholder_ne_nil b.2)) := by
        refine .word fun c hc => ?_
        cases hc
        exact Mark.bars _ (by decide) (by decide)
      exact (hcuts.spares (fun _ => hblock) x).trans (ih hbs _)
  have hfold : (numbered hw k).Spares html (blocks.zipIdx.foldl restoreOne html) :=
    hone _ (fun b hmem => hb b.1 (List.fst_mem_of_mem_zipIdx hmem)) html
  rw [restore_eq]
  split
  · exact .refl html
  · have hcuts : (numbered hw k).Cuts (Rule.tagBreak "</pre>".toList) := .tagBreak "/pre>".toList
    exact hfold.trans (hcuts.spares (fun _ => .literal (by decide)) _)

end Card

namespace Page

open Card

/-- What the steps have made of a protected text when profiles are linked. -/
def beforeProfiles (o : Options) (text : Text) (m : WidgetMap) : Text × Tally :=
  Rule.applyAll o (Stage.linksAndMedia.rules.takeWhile fun r => r.name ≠ "profile")
    (Step.before o text m (.rules .linksAndMedia))

/-- The profile tags that a render resolves. -/
def profiles (o : Options) (text : Text) (m : WidgetMap) : List Region :=
  Guarded.regions (profilePair.pattern.pieces (beforeProfiles o text m).1)

section

variable {o : Options} {text : Text} (m : WidgetMap)

theorem absent_beforeProfiles (h : absent.Holds text) :
    absent.Holds (beforeProfiles o text m).1 := by
  have hearly : absent.Safe fun x => (Step.pipeline.takeWhile fun r =>
      r ≠ .rules .linksAndMedia).foldl (fun x r => r.apply o x) x := .foldl fun _ => absent_early
  have hlinks : absent.Safe (Rule.applyAll o
      (Stage.linksAndMedia.rules.takeWhile fun r => r.name ≠ "profile")) :=
    .foldl fun _ => absent_linkRules
  exact (hlinks _ (hearly _ h).1).1

/-- Cards are handed out to profiles only. -/
theorem cards_apply {s : Step} (hs : s ≠ .rules .linksAndMedia) (x : Text × Tally) :
    (s.apply o x).2.cards = x.2.cards := by
  cases s with
  | rules stage => cases stage <;> first | rfl | exact absurd rfl hs
  | size =>
    show (((Rule.size? o.allowedSizes).map fun r => r.apply o x).getD x).2.cards = _
    unfold Rule.size?
    split <;> rfl
  | boxes k => exact (Box.resolve_resolved o k x.1 x.2).cards
  | lists => rfl
  | links => rfl

theorem cards_foldl {ss : List Step} (hs : .rules .linksAndMedia ∉ ss) (x : Text × Tally) :
    (ss.foldl (fun x r => r.apply o x) x).2.cards = x.2.cards := by
  induction ss generalizing x with
  | nil => rfl
  | cons s ss ih =>
    rw [List.mem_cons, not_or] at hs
    rw [List.foldl_cons, ih hs.2, cards_apply (Ne.symm hs.1)]

theorem cards_beforeProfiles : (beforeProfiles o text m).2.cards = 0 := by
  have hlinks : ∀ x, (Rule.applyAll o (Stage.linksAndMedia.rules.takeWhile fun r =>
      r.name ≠ "profile") x).2 = x.2 := fun x => rfl
  rw [beforeProfiles, hlinks, Step.before, cards_foldl (by decide)]

theorem fillFrom_snd (f : Nat → Region → Text) (i : Nat) (ps : List (Piece Char Region)) :
    (Piece.fillFrom f i ps).2 = i + (Guarded.regions ps).length := by
  induction ps generalizing i with
  | nil => rfl
  | cons p ps ih =>
    cases p with
    | plain c => exact ih i
    | found a =>
      refine (ih (i + 1)).trans ?_
      show i + 1 + (Guarded.regions ps).length = i + ((Guarded.regions ps).length + 1)
      omega

/-- What the rule for profiles makes of a text, and what comes behind it. -/
theorem run_eq_profiles : run o text m =
    [Step.lists, .rules .trailing, .rules .collapseBreaks, .links].foldl (fun x s => s.apply o x)
      (Rule.applyAll o (Stage.linksAndMedia.rules.dropWhile fun r => r.name ≠ "profile").tail
        ((Rule.mk "profile" profilePair.pattern (.numbered Stage.profile)).apply o
          (beforeProfiles o text m))) := rfl

/-- The cards that are handed out are those of the profile tags. -/
theorem cards_run : (run o text m).2.cards = (profiles o text m).length := by
  have hmedia : ∀ x, (Rule.applyAll o (Stage.linksAndMedia.rules.dropWhile fun r =>
      r.name ≠ "profile").tail x).2 = x.2 := fun x => rfl
  have hcards := fillFrom_snd (Stage.profile o) (beforeProfiles o text m).2.cards
    (profilePair.pattern.pieces (beforeProfiles o text m).1)
  rw [run_eq_profiles, cards_foldl (by decide), hmedia]
  refine hcards.trans ?_
  rw [cards_beforeProfiles, Nat.zero_add]
  rfl

/-- Behind a run every word for a number is complete, and a number has its word once if it is one of
those of the profile tags. -/
theorem holds_run {w : Text} (hw : w ∈ numberWords) (k : Nat) (h : absent.Holds text)
    (hbase : ¬ Html.cardPrefix <:+: o.profileUrl)
    (hend : ∀ n < 5, 0 < n → ¬ w.take (w.length - n) <:+ o.profileUrl) :
    (numbered hw k).Holds (run o text m).1 ∧
      (numbered hw k).count (run o text m).1 ≤ if k < (profiles o text m).length then 1 else 0 := by
  have hlate : (numbered hw k).Safe fun x =>
      [Step.lists, .rules .trailing, .rules .collapseBreaks, .links].foldl
        (fun x s => s.apply o x) x := .foldl fun _ => safe_late hw
  have hmedia : (numbered hw k).Safe (Rule.applyAll o
      (Stage.linksAndMedia.rules.dropWhile fun r => r.name ≠ "profile").tail) :=
    .foldl fun _ => safe_mediaRules
  obtain ⟨hprofiles, hcount⟩ := holds_profiles hw k hbase hend (absent_beforeProfiles m h) 0
  rw [if_neg (Nat.not_lt_zero k), Nat.add_zero, fillFrom_snd, Nat.zero_add] at hcount
  have hlinked : ((Rule.mk "profile" profilePair.pattern (.numbered Stage.profile)).apply o
      (beforeProfiles o text m)).1 = (Piece.fillFrom (Stage.profile o) 0
        (profilePair.pattern.pieces (beforeProfiles o text m).1)).1 := by
    rw [Rule.apply_numbered, cards_beforeProfiles]
  rw [← hlinked] at hprofiles hcount
  obtain ⟨hholds, hle⟩ := ((hmedia _).trans (hlate _)) hprofiles
  rw [run_eq_profiles]
  exact ⟨hholds, Nat.le_trans hle hcount⟩

end

/-- No number of a hover card is on a page twice, neither in a card nor in a link to one, and all
are below the number of profile tags, which is the number of cards that are handed out. Neither the
document nor the address of profiles may hold what the numbers start with, and the address may not
end shortly behind the start of it. -/
theorem cards_unique (o : Options) (source : Text) (m : WidgetMap)
    (hsource : ¬ Html.cardPrefix <:+: Guarded.strip source)
    (hbase : ¬ Html.cardPrefix <:+: o.profileUrl)
    (hend : ∀ w ∈ numberWords, ∀ n < 5, 0 < n → ¬ w.take (w.length - n) <:+ o.profileUrl) :
    (run o (Guarded.protect source o.codeBlocks).text m).2.cards =
        (profiles o (Guarded.protect source o.codeBlocks).text m).length ∧
      ∀ k, ∀ w ∈ numberWords,
        occurrences id (w ++ (decimal k ++ ['"'])) (render o source m).html ≤ 1 ∧
          (0 < occurrences id (w ++ (decimal k ++ ['"'])) (render o source m).html →
            k < (profiles o (Guarded.protect source o.codeBlocks).text m).length) := by
  refine ⟨cards_run m, fun k w hw => ?_⟩
  obtain ⟨htext, hblocks⟩ := absent_protect (holds_absent.2 hsource) o.codeBlocks
  obtain ⟨hholds, hrun⟩ := holds_run m hw k htext hbase (hend w hw)
  have hle : occurrences id (w ++ (decimal k ++ ['"'])) (render o source m).html ≤
      if k < (profiles o (Guarded.protect source o.codeBlocks).text m).length then 1 else 0 :=
    Nat.le_trans (spares_restore hw k hblocks _ hholds).2 hrun
  split at hle
  · rename_i hlt
    exact ⟨hle, fun _ => hlt⟩
  · exact ⟨Nat.le_trans hle (Nat.zero_le 1), fun hpos => absurd hle (Nat.not_le_of_lt hpos)⟩

/-- A profile in an address that is copied, and one in an item: three cards. -/
theorem cards_unique_copied :
    let o : Options := {}
    let source := "[url][profile=1]a[/profile][/url] [list][*][profile=2]b[/profile][/list]".toList
    ¬ Html.cardPrefix <:+: Guarded.strip source ∧ ¬ Html.cardPrefix <:+: o.profileUrl ∧
      (∀ w ∈ numberWords, ∀ n < 5, 0 < n → ¬ w.take (w.length - n) <:+ o.profileUrl) ∧
      (run o (Guarded.protect source o.codeBlocks).text .empty).2.cards = 3 ∧
      ∀ k, ∀ w ∈ numberWords,
        occurrences id (w ++ (decimal k ++ ['"'])) (render o source .empty).html ≤ 1 ∧
          (0 < occurrences id (w ++ (decimal k ++ ['"'])) (render o source .empty).html →
            k < 3) := by
  intro o source
  have hsource : ¬ Html.cardPrefix <:+: Guarded.strip source := by
    have hq : 'q' ∉ Guarded.strip source := by decide +kernel
    exact fun hi => hq (hi.subset (by decide))
  have hbase : ¬ Html.cardPrefix <:+: o.profileUrl := by
    have hq : 'q' ∉ o.profileUrl := by decide +kernel
    exact fun hi => hq (hi.subset (by decide))
  have hend : ∀ w ∈ numberWords, ∀ n < 5, 0 < n → ¬ w.take (w.length - n) <:+ o.profileUrl := by
    decide +kernel
  have hthree : (profiles o (Guarded.protect source o.codeBlocks).text .empty).length = 3 := by
    decide +kernel
  have hunique := cards_unique o source .empty hsource hbase hend
  rw [hthree] at hunique
  exact ⟨hsource, hbase, hend, hunique⟩

/-- The id of a user can make an address that ends in a start of a number up to one. -/
theorem cards_twice :
    let o : Options := { profileUrl := "data-tooltip-id=\"qt".toList }
    let source := "[profile=ip-0\"]x[/profile]".toList
    ¬ Html.cardPrefix <:+: Guarded.strip source ∧ ¬ Html.cardPrefix <:+: o.profileUrl ∧
      occurrences id "data-tooltip-id=\"qtip-0\"".toList (render o source .empty).html = 2 := by
  intro o source
  refine ⟨?_, ?_, by decide +kernel⟩
  · have hq : 'q' ∉ Guarded.strip source := by decide +kernel
    exact fun hi => hq (hi.subset (by decide))
  · have hnone : occurrences id Html.cardPrefix o.profileUrl = 0 := by decide +kernel
    rwa [occurrences_eq_zero (by decide), List.map_id] at hnone

end Page

end BBCode
