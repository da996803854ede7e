import Mathlib.Data.List.Basic
import Reconcile.Json.Basic
import Reconcile.Proofs.Ordered

/-!
# What a canonical text tells

Two objects with one canonical text have members of the same names, and members of one name that have one
canonical text themselves. For this the text has to be cut between members: a walk through the text of a
value closes every bracket and every string that it opens, since quotes in strings stand behind a
backslash. So the first comma outside of brackets and strings ends a member, and the first colon there
ends its name.

Layers:
1. Guarded strings
2. Walks
3. Values
4. Members
-/

namespace Reconcile
namespace Json

/-! ## §1 Guarded strings -/

/-- What guarded pieces stand for. -/
def unguarded : List Piece → List Piece
  | .char '\\' :: p :: rest => p :: unguarded rest
  | p :: rest => p :: unguarded rest
  | [] => []

theorem unguarded_flatMap (ps : List Piece) : unguarded (ps.flatMap guardedPiece) = ps := by
  induction ps with
  | nil => rfl
  | cons p ps ih =>
    rw [List.flatMap_cons, guardedPiece]
    split
    · rw [List.cons_append, List.cons_append, List.nil_append, unguarded, ih]
    · next hplain =>
      obtain ⟨-, hplain⟩ := not_or.mp hplain
      rw [List.cons_append, List.nil_append, unguarded.eq_2, ih]
      rintro q rest rfl
      exact absurd rfl hplain

/-- Different strings differ when they are guarded. -/
theorem guarded_injective : Function.Injective guarded := by
  intro s t h
  have hpieces := congrArg (fun guarded => unguarded guarded.pieces) h
  simp only [guarded, unguarded_flatMap] at hpieces
  exact Str.ext hpieces

/-! ## §2 Walks -/

/-- Where a walk through a text stands: outside of strings and inside a number of brackets, in a string
there, or in such a string behind a backslash. -/
inductive Spot where
  | outside (depth : Nat)
  | inside (depth : Nat)
  | guarded (depth : Nat)

/-- Where a walk stands behind one more piece. -/
def Spot.after : Spot → Piece → Spot
  | .outside depth, p =>
    if p = '"' then .inside depth
    else if p = '(' ∨ p = '[' then .outside (depth + 1)
    else if p = ')' ∨ p = ']' then .outside (depth - 1)
    else .outside depth
  | .inside depth, p =>
    if p = '"' then .outside depth else if p = '\\' then .guarded depth else .inside depth
  | .guarded depth, _ => .inside depth

/-- A walk through a text leads from a spot to another, and meets no separator outside of strings and
brackets. -/
inductive Leads (separator : Piece) : Spot → List Piece → Spot → Prop where
  | nil (s : Spot) : Leads separator s [] s
  | cons {s s' : Spot} {p : Piece} {ps : List Piece} (hp : s = .outside 0 → p ≠ separator)
      (rest : Leads separator (s.after p) ps s') : Leads separator s (p :: ps) s'

variable {separator p : Piece} {s s' s'' : Spot} {ps ps' rest rest' : List Piece}

theorem Leads.append (h : Leads separator s ps s') (h' : Leads separator s' ps' s'') :
    Leads separator s (ps ++ ps') s'' := by
  induction h with
  | nil => exact h'
  | cons hp _ ih => exact .cons hp (ih h')

/-- The first separator outside of strings and brackets is the end of a walk that leads there. -/
theorem Leads.eq_of_append (h : Leads separator s ps (.outside 0))
    (h' : Leads separator s ps' (.outside 0))
    (heq : ps ++ separator :: rest = ps' ++ separator :: rest') : ps = ps' ∧ rest = rest' := by
  generalize hend : Spot.outside 0 = e at h
  -- The walks stand at the same spot after each character, so neither ends before the other.
  induction h generalizing ps' with
  | nil =>
    subst hend
    cases h' with
    | nil => exact ⟨rfl, (List.cons.inj heq).2⟩
    | cons hp => exact absurd (List.cons.inj heq).1.symm (hp rfl)
  | cons hp _ ih =>
    cases h' with
    | nil => exact absurd (List.cons.inj heq).1 (hp rfl)
    | cons hp' hrest' =>
      obtain ⟨rfl, htail⟩ := List.cons.inj heq
      obtain ⟨rfl, hrest⟩ := ih hrest' htail hend
      exact ⟨rfl, hrest⟩

/-- A walk through a text leads on outside of strings, in the brackets in which it starts. -/
def Solid (separator : Piece) (ps : List Piece) : Prop :=
  ∀ depth, Leads separator (.outside depth) ps (.outside depth)

/-- The same, if the walk starts inside of brackets. -/
def Enclosed (separator : Piece) (ps : List Piece) : Prop :=
  ∀ depth, Leads separator (.outside (depth + 1)) ps (.outside (depth + 1))

theorem Solid.enclosed (h : Solid separator ps) : Enclosed separator ps := fun depth => h (depth + 1)

theorem Solid.append (h : Solid separator ps) (h' : Solid separator ps') :
    Solid separator (ps ++ ps') := fun depth => (h depth).append (h' depth)

theorem Enclosed.append (h : Enclosed separator ps) (h' : Enclosed separator ps') :
    Enclosed separator (ps ++ ps') := fun depth => (h depth).append (h' depth)

/-- What opens or closes something. -/
def brackets : List Piece := ['"', '(', '[', ')', ']']

/-- What separates members, and a name from its value. -/
def separators : List Piece := [',', ':']

/-- A piece that neither opens nor closes anything and separates nothing. -/
def IsOrdinary (p : Piece) : Prop := p ∉ brackets ++ separators

instance : DecidablePred IsOrdinary := fun _ => inferInstanceAs (Decidable (_ ∉ _))

theorem isOrdinary_of_all (h : ps.all (fun p => decide (IsOrdinary p)) = true) (hp : p ∈ ps) :
    IsOrdinary p := of_decide_eq_true (List.all_eq_true.mp h p hp)

theorem Spot.after_outside (hp : p ∉ brackets) (depth : Nat) :
    (outside depth).after p = outside depth := by
  simp only [brackets, List.mem_cons, List.not_mem_nil, or_false, not_or] at hp
  simp [after, hp]

theorem not_mem_brackets (hp : p ∈ separators) : p ∉ brackets := by
  rcases List.mem_pair.mp hp with rfl | rfl <;> decide

theorem solid_ordinary (hseparator : separator ∈ separators) (hps : ∀ p ∈ ps, IsOrdinary p) :
    Solid separator ps := by
  intro depth
  induction ps with
  | nil => exact .nil _
  | cons p ps ih =>
    obtain ⟨hp, hps⟩ := List.forall_mem_cons.mp hps
    refine .cons ?_ ?_
    · rintro - rfl
      exact hp (List.mem_append_right brackets hseparator)
    · rw [Spot.after_outside fun hmem => hp (List.mem_append_left separators hmem)]
      exact ih hps

/-- A mark between members is passed over inside of brackets. -/
theorem enclosed_mark (hp : p ∈ separators) : Enclosed separator [p] := by
  intro depth
  refine .cons nofun ?_
  rw [Spot.after_outside (not_mem_brackets hp)]
  exact .nil _

/-- A mark other than the separator is passed over. -/
theorem solid_mark (hp : p ∈ separators) (hne : p ≠ separator) : Solid separator [p] := by
  intro depth
  refine .cons (fun _ => hne) ?_
  rw [Spot.after_outside (not_mem_brackets hp)]
  exact .nil _

/-- Behind a backslash every piece is passed over. -/
theorem leads_guardedPiece (p : Piece) (depth : Nat) :
    Leads separator (.inside depth) (guardedPiece p) (.inside depth) := by
  unfold guardedPiece
  split
  · exact .cons nofun (.cons nofun (.nil _))
  · next hplain =>
    obtain ⟨hquote, hbackslash⟩ := not_or.mp hplain
    refine .cons nofun ?_
    simp only [Spot.after, hquote, hbackslash, if_false]
    exact .nil _

theorem leads_guarded (s : Str) (depth : Nat) :
    Leads separator (.inside depth) (guarded s).pieces (.inside depth) := by
  obtain ⟨ps⟩ := s
  unfold guarded
  induction ps with
  | nil => exact .nil _
  | cons p ps ih => exact (leads_guardedPiece p depth).append ih

/-- A string between quotes is passed over. -/
theorem solid_quoted (hseparator : separator ∈ separators) (s : Str) :
    Solid separator (.char '"' :: (guarded s).pieces ++ [.char '"']) := by
  intro depth
  have hquote : ∀ s, s = Spot.outside 0 → Piece.char '"' ≠ separator := by
    rintro - - rfl
    exact absurd hseparator (by decide)
  exact .cons (hquote _) ((leads_guarded s depth).append (.cons (hquote _) (.nil _)))

/-- The brackets of arrays and of objects. -/
def pairs : List (Piece × Piece) := [('(', ')'), ('[', ']')]

/-- What brackets enclose is passed over with them. -/
theorem Enclosed.solid (hseparator : separator ∈ separators) (h : Enclosed separator ps)
    {opening closing : Piece} (hbrackets : (opening, closing) ∈ pairs) :
    Solid separator (opening :: ps ++ [closing]) := by
  intro depth
  simp only [pairs, List.mem_cons, List.not_mem_nil, or_false, Prod.mk.injEq] at hbrackets
  have hne : opening ≠ separator := by
    rintro rfl
    rcases hbrackets with ⟨rfl, -⟩ | ⟨rfl, -⟩ <;> exact absurd hseparator (by decide)
  have hopen : (Spot.outside depth).after opening = .outside (depth + 1) := by
    rcases hbrackets with ⟨rfl, -⟩ | ⟨rfl, -⟩ <;> rfl
  have hclose : (Spot.outside (depth + 1)).after closing = .outside depth := by
    rcases hbrackets with ⟨-, rfl⟩ | ⟨-, rfl⟩ <;> rfl
  refine .cons (fun _ => hne) ?_
  rw [hopen]
  refine (h depth).append (.cons nofun ?_)
  rw [hclose]
  exact .nil _

/-- A property holds of texts with a mark between neighbours if it holds of each and is kept when two are
put together with the mark between them. -/
theorem intercalate_holds {P : List Piece → Prop} {mark : Piece} (hnil : P [])
    (hjoin : ∀ {ps qs}, P ps → P qs → P (ps ++ mark :: qs)) {texts : List (List Piece)}
    (h : ∀ t ∈ texts, P t) : P ([mark].intercalate texts) := by
  induction texts with
  | nil => exact hnil
  | cons first rest ih =>
    obtain ⟨hfirst, hrest⟩ := List.forall_mem_cons.mp h
    cases rest with
    | nil => simpa using hfirst
    | cons second rest =>
      rw [List.intercalate_cons_cons, List.append_assoc]
      exact hjoin hfirst (ih hrest)

theorem enclosed_intercalate {texts : List (List Piece)} (h : ∀ t ∈ texts, Enclosed separator t) :
    Enclosed separator ([.char ','].intercalate texts) :=
  intercalate_holds (fun _ => .nil _)
    (fun hps hqs => hps.append ((enclosed_mark (by decide)).append hqs)) h

/-! ## §3 Values -/

theorem isOrdinary_of_isDigit {c : Char} (h : c.isDigit = true) : IsOrdinary c := by
  have hmarks : (brackets ++ separators).all (fun p => !p.holds Char.isDigit) = true := by decide
  intro hp
  simpa [Piece.holds, h] using List.all_eq_true.mp hmarks c hp

theorem isOrdinary_repr {n : Nat} (hp : p ∈ (n.repr : Str).pieces) : IsOrdinary p := by
  obtain ⟨c, hc, rfl⟩ := List.mem_map.mp hp
  rw [Nat.repr, String.toList_ofList] at hc
  exact isOrdinary_of_isDigit (Nat.isDigit_of_mem_toDigits (by decide) (by decide) hc)

theorem isOrdinary_toString {i : Int} (hp : p ∈ (toString i : Str).pieces) : IsOrdinary p := by
  cases i with
  | ofNat n => exact isOrdinary_repr hp
  | negSucc n =>
    have hminus : (toString (Int.negSucc n) : Str).pieces = .char '-' :: ((n + 1).repr : Str).pieces := by
      show ((("-" ++ (n + 1).repr : String) : Str)).pieces = _
      simp
    rw [hminus] at hp
    rcases List.mem_cons.mp hp with rfl | hp
    · decide
    · exact isOrdinary_repr hp

theorem isOrdinary_canonicalText_int {i : Int} (hp : p ∈ (canonicalText (.int i)).pieces) :
    IsOrdinary p := by
  rw [canonicalText, Str.pieces_append, List.mem_append] at hp
  rcases hp with hp | hp
  · exact isOrdinary_of_all (by decide) hp
  · exact isOrdinary_toString hp

theorem isOrdinary_canonicalText_decimal {d : Decimal}
    (hp : p ∈ (canonicalText (.decimal d)).pieces) : IsOrdinary p := by
  cases d with
  | undefined => exact isOrdinary_of_all (by decide) hp
  | _ =>
    simp only [canonicalText, Str.pieces_append, List.mem_append] at hp
    rcases hp with hp | hp
    · exact isOrdinary_of_all (by decide) hp
    · exact isOrdinary_repr hp

theorem memberTexts_eq_map (members : List (Str × Json)) :
    memberTexts members = members.map fun member => (guarded member.1, canonicalText member.2) := by
  induction members with
  | nil => rfl
  | cons member members ih => rw [memberTexts, ih, List.map_cons]

/-- A member in a canonical text. -/
def memberText (member : Str × Str) : List Piece :=
  .char '"' :: member.1.pieces ++ [.char '"'] ++ [.char ':'] ++ member.2.pieces

theorem pieces_canonicalText_array (items : List Json) :
    (canonicalText (.array items)).pieces =
      .char '[' :: [.char ','].intercalate ((itemTexts items).map Str.pieces) ++ [.char ']'] := rfl

theorem pieces_canonicalText_object (members : List (Str × Json)) :
    (canonicalText (.object members)).pieces =
      .char '(' :: [.char ','].intercalate
        ((Ordered.sortBy Prod.fst (memberTexts members)).map memberText) ++ [.char ')'] := by
  have hmember : memberText =
      fun member => ("\"" ++ member.1 ++ "\":" ++ member.2 : Str).pieces := by
    funext member
    simp [memberText]
  simp [canonicalText, hmember, Function.comp_def]

theorem pieces_canonicalText_string (s : Str) :
    (canonicalText (.string s)).pieces = .char '"' :: (guarded s).pieces ++ [.char '"'] := rfl

/-- The texts of members are passed over inside of brackets. -/
theorem enclosed_memberText (hseparator : separator ∈ separators) {s text : Str}
    (h : Solid separator text.pieces) : Enclosed separator (memberText (guarded s, text)) :=
  ((solid_quoted hseparator s).enclosed.append (enclosed_mark (by decide))).append h.enclosed

mutual

/-- The canonical text of a value is passed over. -/
theorem solid_canonicalText (hseparator : separator ∈ separators) :
    ∀ value : Json, Solid separator value.canonicalText.pieces
  | .null => solid_ordinary hseparator fun _ => isOrdinary_of_all (by decide)
  | .bool true => solid_ordinary hseparator fun _ => isOrdinary_of_all (by decide)
  | .bool false => solid_ordinary hseparator fun _ => isOrdinary_of_all (by decide)
  | .int _ => solid_ordinary hseparator fun _ => isOrdinary_canonicalText_int
  | .decimal _ => solid_ordinary hseparator fun _ => isOrdinary_canonicalText_decimal
  | .string s => solid_quoted hseparator s
  | .array items => by
    rw [pieces_canonicalText_array]
    refine (enclosed_intercalate ?_).solid hseparator (by decide)
    exact List.forall_mem_map.mpr fun text htext => (solid_itemTexts hseparator items text htext).enclosed
  | .object members => by
    rw [pieces_canonicalText_object]
    refine (enclosed_intercalate (List.forall_mem_map.mpr fun member hmember => ?_)).solid hseparator
      (by decide)
    obtain ⟨s, text, htext, rfl⟩ :=
      solid_memberTexts hseparator members member (Ordered.mem_sortBy.mp hmember)
    exact enclosed_memberText hseparator htext

theorem solid_itemTexts (hseparator : separator ∈ separators) :
    ∀ items : List Json, ∀ text ∈ itemTexts items, Solid separator text.pieces
  | [], _, h => absurd h List.not_mem_nil
  | item :: items, text, h => by
    rcases List.mem_cons.mp h with rfl | h
    · exact solid_canonicalText hseparator item
    · exact solid_itemTexts hseparator items text h

theorem solid_memberTexts (hseparator : separator ∈ separators) :
    ∀ members : List (Str × Json), ∀ member ∈ memberTexts members,
      ∃ s text, Solid separator text.pieces ∧ member = (guarded s, text)
  | [], _, h => absurd h List.not_mem_nil
  | (s, value) :: members, member, h => by
    rcases List.mem_cons.mp h with rfl | h
    · exact ⟨s, _, solid_canonicalText hseparator value, rfl⟩
    · exact solid_memberTexts hseparator members member h

end

/-! ## §4 Members -/

/-- The character at which the canonical text of a value starts. -/
def opening : Json → Char
  | .null => 'n'
  | .bool b => if b then 't' else 'f'
  | .int _ => 'i'
  | .decimal .undefined => 'u'
  | .decimal _ => 'd'
  | .string _ => '"'
  | .array _ => '['
  | .object _ => '('

theorem head?_canonicalText (value : Json) :
    value.canonicalText.pieces.head? = some (.char value.opening) := by
  cases value with
  | bool b => cases b <;> rfl
  | decimal d => cases d <;> rfl
  | _ => rfl

variable {value value' : Json} {members members' : List (Str × Json)} {name : String}

theorem opening_eq (h : value.canonicalText = value'.canonicalText) :
    value.opening = value'.opening := by
  have hhead := head?_canonicalText value
  rw [h, head?_canonicalText value'] at hhead
  exact (Piece.char.inj (Option.some.inj hhead)).symm

/-- Only objects have the canonical text of an object. -/
theorem exists_object_of_canonicalText (h : value.canonicalText = (object members).canonicalText) :
    ∃ members', value = .object members' := by
  have hopening := opening_eq h
  cases value with
  | object members' => exact ⟨members', rfl⟩
  | bool b => cases b <;> cases hopening
  | decimal d => cases d <;> cases hopening
  | _ => cases hopening

theorem string?_eq_none_iff : value.string? = none ↔ value.opening ≠ '"' := by
  cases value with
  | bool b => cases b <;> simp [string?, opening]
  | decimal d => cases d <;> simp [string?, opening]
  | _ => simp [string?, opening]

theorem eq_string_of_string? {s : Str} (h : value.string? = some s) : value = .string s := by
  cases value <;> cases h
  rfl

/-- Values with one canonical text are the same string or no strings at all. -/
theorem string?_eq_of_canonicalText (h : value.canonicalText = value'.canonicalText) :
    value.string? = value'.string? := by
  cases hstring : value.string? with
  | none => rw [eq_comm, string?_eq_none_iff, ← opening_eq h, ← string?_eq_none_iff, hstring]
  | some s =>
    cases hstring' : value'.string? with
    | none =>
      rw [string?_eq_none_iff, ← opening_eq h, ← string?_eq_none_iff, hstring] at hstring'
      cases hstring'
    | some s' =>
      obtain rfl := eq_string_of_string? hstring
      obtain rfl := eq_string_of_string? hstring'
      have hquoted := congrArg Str.pieces h
      rw [pieces_canonicalText_string, pieces_canonicalText_string] at hquoted
      have hguarded := List.append_cancel_right (List.cons.inj hquoted).2
      rw [guarded_injective (Str.ext hguarded)]

/-- A guarded name with the canonical text of a value. -/
def IsMember (member : Str × Str) : Prop :=
  ∃ (s : Str) (value : Json), member = (guarded s, value.canonicalText)

theorem isMember_of_mem {member : Str × Str} (h : member ∈ memberTexts members) :
    IsMember member := by
  rw [memberTexts_eq_map, List.mem_map] at h
  obtain ⟨⟨s, value⟩, -, rfl⟩ := h
  exact ⟨s, value, rfl⟩

/-- The text of a member ends at the first comma, and its name at the first colon. -/
theorem memberText_inj {x y : Str × Str} (hx : IsMember x) (hy : IsMember y)
    (h : memberText x ++ .char ',' :: rest = memberText y ++ .char ',' :: rest') :
    x = y ∧ rest = rest' := by
  obtain ⟨s, value, rfl⟩ := hx
  obtain ⟨s', value', rfl⟩ := hy
  have hsolid : ∀ (s : Str) (value : Json),
      Solid (.char ',') (memberText (guarded s, value.canonicalText)) := fun s value =>
    ((solid_quoted (by decide) s).append (solid_mark (by decide) (by decide))).append
      (solid_canonicalText (by decide) value)
  obtain ⟨htext, hrest⟩ := (hsolid s value 0).eq_of_append (hsolid s' value' 0) h
  -- Once the text of the member is known, its name is up to the first colon.
  have hname : ∀ (s : Str) (value : Json), memberText (guarded s, value.canonicalText) =
      (.char '"' :: (guarded s).pieces ++ [.char '"']) ++ .char ':' :: value.canonicalText.pieces := by
    simp [memberText]
  rw [hname, hname] at htext
  obtain ⟨hquoted, hvalue⟩ := (solid_quoted (by decide) s 0).eq_of_append
    (solid_quoted (by decide) s' 0) htext
  refine ⟨Prod.ext ?_ (Str.ext hvalue), hrest⟩
  exact Str.ext (List.append_cancel_right (List.cons.inj hquoted).2)

/-- With a comma behind them, texts between commas are texts that a comma follows each. -/
theorem intercalate_append_comma {texts : List (List Piece)} (h : texts ≠ []) :
    [.char ','].intercalate texts ++ [.char ','] = texts.flatMap fun t => t ++ [.char ','] := by
  induction texts with
  | nil => exact absurd rfl h
  | cons first rest ih =>
    cases rest with
    | nil => simp
    | cons second rest =>
      rw [List.intercalate_cons_cons, List.append_assoc, ih (by simp), List.flatMap_cons,
        List.flatMap_cons, List.flatMap_cons]

theorem eq_of_flatMap_eq {xs ys : List (Str × Str)} (hxs : ∀ x ∈ xs, IsMember x)
    (hys : ∀ y ∈ ys, IsMember y)
    (h : (xs.flatMap fun x => memberText x ++ [.char ',']) =
      ys.flatMap fun y => memberText y ++ [.char ',']) : xs = ys := by
  induction xs generalizing ys with
  | nil =>
    cases ys with
    | nil => rfl
    | cons y ys => simp [memberText] at h
  | cons x xs ih =>
    cases ys with
    | nil => simp [memberText] at h
    | cons y ys =>
      obtain ⟨hx, hxs⟩ := List.forall_mem_cons.mp hxs
      obtain ⟨hy, hrest⟩ := List.forall_mem_cons.mp hys
      simp only [List.flatMap_cons, List.append_assoc, List.singleton_append] at h
      obtain ⟨rfl, hbehind⟩ := memberText_inj hx hy h
      rw [ih hxs hrest hbehind]

/-- Members with commas between them can be cut apart. -/
theorem eq_of_intercalate_eq {xs ys : List (Str × Str)} (hxs : ∀ x ∈ xs, IsMember x)
    (hys : ∀ y ∈ ys, IsMember y)
    (h : [.char ','].intercalate (xs.map memberText) = [.char ','].intercalate (ys.map memberText)) :
    xs = ys := by
  have hcomma : ∀ x xs, [.char ','].intercalate ((x :: xs).map memberText) ++ [.char ','] =
      (x :: xs).flatMap fun x => memberText x ++ [.char ','] := by
    intro x xs
    rw [intercalate_append_comma (by simp), List.flatMap_map]
  cases xs with
  | nil =>
    cases ys with
    | nil => rfl
    | cons y ys =>
      have hy := hcomma y ys
      rw [← h] at hy
      simp [memberText] at hy
  | cons x xs =>
    cases ys with
    | nil =>
      have hx := hcomma x xs
      rw [h] at hx
      simp [memberText] at hx
    | cons y ys => exact eq_of_flatMap_eq hxs hys (by rw [← hcomma, ← hcomma, h])

/-- Objects with one canonical text have the same guarded names with the same canonical texts. -/
theorem sorted_memberTexts_eq
    (h : (object members).canonicalText = (object members').canonicalText) :
    Ordered.sortBy Prod.fst (memberTexts members) = Ordered.sortBy Prod.fst (memberTexts members') := by
  have htexts := congrArg Str.pieces h
  rw [pieces_canonicalText_object, pieces_canonicalText_object] at htexts
  apply eq_of_intercalate_eq _ _ (List.append_cancel_right (List.cons.inj htexts).2)
  · exact fun member hmember => isMember_of_mem (Ordered.mem_sortBy.mp hmember)
  · exact fun member hmember => isMember_of_mem (Ordered.mem_sortBy.mp hmember)

/-- The canonical text of a member is the last one with its guarded name. -/
theorem canonicalText_member? (name : String) (members : List (Str × Json)) :
    (member? name members).map canonicalText =
      ((memberTexts members).filter fun m => m.1 = guarded name).getLast?.map Prod.snd := by
  induction members with
  | nil => rfl
  | cons member members ih =>
    obtain ⟨other, value⟩ := member
    rw [member?, memberTexts, List.filter_cons]
    by_cases hname : other = name
    · subst hname
      simp only [if_true, decide_true, List.getLast?_cons, Option.map_some]
      -- A later member of the name counts, else this one.
      cases hlast : ((memberTexts members).filter fun m => m.1 = guarded name).getLast? with
      | none =>
        rw [hlast, Option.map_none, Option.map_eq_none_iff] at ih
        rw [ih, Option.none_or, Option.map_some, Option.getD_none]
      | some last =>
        rw [hlast, Option.map_some, Option.map_eq_some_iff] at ih
        obtain ⟨later, hlater, htext⟩ := ih
        rw [hlater, Option.some_or, Option.map_some, htext, Option.getD_some]
    · simp only [hname, guarded_injective.eq_iff, if_false, decide_false, Bool.false_eq_true,
        Option.or_none, ih]

/-- Objects with one canonical text have the same strings under the same names. -/
theorem string?_member?_eq (h : (object members).canonicalText = (object members').canonicalText)
    (name : String) :
    (member? name members).bind string? = (member? name members').bind string? := by
  have htexts : (member? name members).map canonicalText =
      (member? name members').map canonicalText := by
    rw [canonicalText_member?, canonicalText_member?, ← Ordered.filter_sortBy,
      sorted_memberTexts_eq h, Ordered.filter_sortBy]
  cases hmember : member? name members with
  | none =>
    rw [hmember, Option.map_none, eq_comm, Option.map_eq_none_iff] at htexts
    rw [htexts]
  | some value =>
    rw [hmember, Option.map_some, eq_comm, Option.map_eq_some_iff] at htexts
    obtain ⟨value', hmember', htext⟩ := htexts
    rw [hmember', Option.bind_some, Option.bind_some, string?_eq_of_canonicalText htext]

end Json
end Reconcile
