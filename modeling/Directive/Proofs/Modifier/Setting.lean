import Directive.Modifier.Setting
import Directive.Proofs.Text.Blank

/-!
# Settings written and read again

* `Items`: the items of a text, in their order;
* `items_of_itemsOf`: those are what is left when a text is split, trimmed and rid of empty pieces;
* `itemsOf_intercalate`: items with commas between them are found again;
* `IsPair`, `ofText_eq_single_iff`: the texts that are a single value;
* `isWeighted_ofChars_iff`: the texts that are a weighted list;
* `Setting.ofText_text`: what is not a weighted list stays what it is, unless it is a list of fewer
  than two items, whose written form has no comma.
-/

namespace Directive

/-! ### Items of a text -/

/-- Nothing but blanks and commas. -/
def IsGap (gap : List Char) : Prop := ∀ c ∈ gap, Text.isBlank c = true ∨ c = ','

/-- What an item of a text looks like. -/
structure IsItem (item : List Char) : Prop where
  nonempty : item ≠ []
  trimmed : Text.trimChars item = item
  noComma : ',' ∉ item

/-- The items of a text, one behind the other. There is a comma behind each but the last, and nothing
but blanks and commas is left out. -/
inductive Items : List Char → List (List Char) → Prop
  | none {gap : List Char} (blank : IsGap gap) : Items gap []
  | last {gap item blanks : List Char} (gapped : IsGap gap) (first : IsItem item)
      (blank : ∀ c ∈ blanks, Text.isBlank c = true) : Items (gap ++ (item ++ blanks)) [item]
  | item {gap item blanks more : List Char} {items : List (List Char)} (gapped : IsGap gap)
      (first : IsItem item) (blank : ∀ c ∈ blanks, Text.isBlank c = true)
      (rest : Items more items) : Items (gap ++ (item ++ (blanks ++ ',' :: more))) (item :: items)

theorem IsGap.of_blanks {blanks : List Char} (h : ∀ c ∈ blanks, Text.isBlank c = true) :
    IsGap blanks :=
  fun c hc => .inl (h c hc)

theorem IsGap.append {gap more : List Char} (h : IsGap gap) (hMore : IsGap more) :
    IsGap (gap ++ more) :=
  List.forall_mem_append.mpr ⟨h, hMore⟩

theorem IsGap.comma : IsGap [','] := List.forall_mem_singleton.mpr (.inr rfl)

namespace Items

variable {text : List Char} {items : List (List Char)}

theorem isItem (h : Items text items) : ∀ item ∈ items, IsItem item := by
  induction h with
  | none => exact List.forall_mem_nil _
  | last _ first => exact List.forall_mem_singleton.mpr first
  | item _ first _ _ ih => exact List.forall_mem_cons.mpr ⟨first, ih⟩

/-- A gap in front makes no difference. -/
theorem behind {gap : List Char} (gapped : IsGap gap) (h : Items text items) :
    Items (gap ++ text) items := by
  cases h with
  | none blank => exact .none (gapped.append blank)
  | last gapped' first blank =>
    rw [← List.append_assoc]
    exact .last (gapped.append gapped') first blank
  | item gapped' first blank rest =>
    rw [← List.append_assoc]
    exact .item (gapped.append gapped') first blank rest

end Items

theorem isItem_trimChars {piece : List Char} (noComma : ',' ∉ piece)
    (nonempty : Text.trimChars piece ≠ []) : IsItem (Text.trimChars piece) := by
  refine ⟨nonempty, Text.trimChars_trimChars piece, ?_⟩
  obtain ⟨front, back, hPiece, -, -⟩ := Text.trimChars_within piece
  intro hComma
  rw [hPiece] at noComma
  exact noComma (by simp [hComma])

/-- The pieces of a text that are not blank are its items, once they are trimmed. -/
theorem items_of_pieces {pieces : List (List Char)} (noComma : ∀ piece ∈ pieces, ',' ∉ piece) :
    Items ([','].intercalate pieces) ((pieces.map Text.trimChars).filter (!·.isEmpty)) := by
  induction pieces with
  | nil => exact .none (List.forall_mem_nil _)
  | cons piece pieces ih =>
    obtain ⟨hPiece, hPieces⟩ := List.forall_mem_cons.mp noComma
    obtain ⟨front, back, hSplit, hFront, hBack⟩ := Text.trimChars_within piece
    have hFrontGap : IsGap front := .of_blanks hFront
    by_cases empty : Text.trimChars piece = []
    · have hBlank : IsGap piece := by
        rw [hSplit, empty]
        exact hFrontGap.append (.of_blanks hBack)
      rw [List.map_cons, List.filter_cons_of_neg (by simp [empty])]
      cases pieces with
      | nil =>
        rw [List.intercalate_singleton]
        exact .none hBlank
      | cons next pieces =>
        rw [List.intercalate_cons_cons]
        exact (ih hPieces).behind (hBlank.append .comma)
    · have hItem := isItem_trimChars hPiece empty
      rw [List.map_cons, List.filter_cons_of_pos (by simp [empty])]
      cases pieces with
      | nil =>
        rw [List.intercalate_singleton]
        conv => lhs; rw [hSplit]
        exact .last hFrontGap hItem hBack
      | cons next pieces =>
        have hText : [','].intercalate (piece :: next :: pieces) =
            front ++ (Text.trimChars piece ++ (back ++ ',' :: [','].intercalate (next :: pieces))) := by
          rw [List.intercalate_cons_cons]
          conv => lhs; rw [hSplit]
          simp
        rw [hText]
        exact .item hFrontGap hItem hBack (ih hPieces)

/-! ### Splitting -/

theorem split_eq_splitOnP (p : Char → Bool) (text : List Char) :
    Text.split p text = text.splitOnP p := by
  induction text with
  | nil => rfl
  | cons c text ih =>
    rw [Text.split, List.splitOnP_cons_eq_if_modifyHead, ih]
    rcases hPieces : text.splitOnP p with _ | ⟨piece, pieces⟩
    · exact absurd hPieces (List.splitOnP_ne_nil p text)
    · rfl

theorem not_mem_of_mem_split {text piece : List Char} (h : piece ∈ Text.split (· == ',') text) :
    ',' ∉ piece := by
  induction text generalizing piece with
  | nil =>
    rw [List.mem_singleton.mp h]
    exact List.not_mem_nil
  | cons c text ih =>
    rw [Text.split] at h
    split at h
    · obtain rfl | h := List.mem_cons.mp h
      · exact List.not_mem_nil
      · exact ih h
    · rename_i hOther
      have hComma : ',' ≠ c := by
        rintro rfl
        exact hOther rfl
      split at h
      · rename_i first pieces hPieces
        rw [hPieces] at ih
        obtain rfl | h := List.mem_cons.mp h
        · exact List.not_mem_cons_of_ne_of_not_mem hComma (ih List.mem_cons_self)
        · exact ih (List.mem_cons_of_mem first h)
      · rw [List.mem_singleton.mp h]
        exact List.not_mem_cons_of_ne_of_not_mem hComma List.not_mem_nil

namespace Setting

theorem items_of_itemsOf (raw : List Char) : Items raw (itemsOf raw) := by
  have hItems := @items_of_pieces (Text.split (· == ',') raw) fun _ h => not_mem_of_mem_split h
  rwa [split_eq_splitOnP, ← List.splitOn_eq_splitOnP, List.intercalate_splitOn,
    List.splitOn_eq_splitOnP, ← split_eq_splitOnP] at hItems

theorem itemsOf_of_noComma {raw : List Char} (noComma : ',' ∉ raw) :
    itemsOf raw = [Text.trimChars raw].filter (!·.isEmpty) := by
  have hWhole : Text.split (· == ',') raw = [raw] := by
    rw [split_eq_splitOnP]
    apply List.splitOnP_eq_singleton
    intro c hc
    exact beq_false_of_ne fun hComma => noComma (hComma ▸ hc)
  rw [itemsOf, hWhole, List.map_singleton]

/-- Items are found again in the text that has commas between them. -/
theorem itemsOf_intercalate {items : List (List Char)} (h : ∀ item ∈ items, IsItem item) :
    itemsOf ([','].intercalate items) = items := by
  by_cases none : items = []
  · rw [none, List.intercalate_nil]
    rfl
  have hPieces : Text.split (· == ',') ([','].intercalate items) = items := by
    rw [split_eq_splitOnP]
    exact List.splitOn_intercalate ',' (fun item hItem => (h item hItem).noComma) none
  have hTrimmed : items.map Text.trimChars = items := by
    conv => rhs; rw [← List.map_id items]
    exact List.map_congr_left fun item hItem => (h item hItem).trimmed
  rw [itemsOf, hPieces, hTrimmed, List.filter_eq_self]
  intro item hItem
  simpa using (h item hItem).nonempty

end Setting

/-! ### Pairs -/

/-- A pair of a key and a number. In front of the last colon it is not blank, and behind it there is a
finite number. -/
def IsPair (item : List Char) : Prop :=
  ∃ key weight x, item = key ++ ':' :: weight ∧ ':' ∉ weight ∧ Text.trimChars key ≠ [] ∧
    Binary64.ofChars? (Text.trimChars weight) = some x ∧ x.isFinite = true

namespace Setting

theorem cutLastColon?_eq_some_iff {item key weight : List Char} :
    cutLastColon? item = some (key, weight) ↔ item = key ++ ':' :: weight ∧ ':' ∉ weight := by
  constructor
  · intro h
    unfold cutLastColon? at h
    dsimp only at h
    split at h
    · rename_i c front hFront
      cases h
      have hColon : c = ':' := by
        have hFirst := List.head?_dropWhile_not (· != ':') item.reverse
        rw [hFront] at hFirst
        simpa using hFirst
      have hReverse := List.takeWhile_append_dropWhile (p := (· != ':')) (l := item.reverse)
      rw [hFront, hColon] at hReverse
      constructor
      · simpa using (congrArg List.reverse hReverse).symm
      · intro hMem
        have hTaken := List.all_eq_true.mp List.all_takeWhile _ (List.mem_reverse.mp hMem)
        simp at hTaken
    · cases h
  · rintro ⟨rfl, noColon⟩
    have hReverse : (key ++ ':' :: weight).reverse = weight.reverse ++ ':' :: key.reverse := by
      simp
    have hOther : ∀ c ∈ weight.reverse, (c != ':') = true := by
      intro c hc
      rw [bne_iff_ne]
      rintro rfl
      exact noColon (List.mem_reverse.mp hc)
    unfold cutLastColon?
    rw [hReverse, List.takeWhile_append_of_pos hOther, List.dropWhile_append_of_pos hOther]
    simp

theorem isSome_pair?_iff {item : List Char} : (pair? item).isSome = true ↔ IsPair item := by
  unfold pair?
  constructor
  · intro h
    split at h
    · cases h
    · rename_i key weight hCut
      obtain ⟨rfl, noColon⟩ := cutLastColon?_eq_some_iff.mp hCut
      dsimp only at h
      split at h
      · cases h
      rename_i hKey
      split at h
      · rename_i x hNumber
        split at h
        · rename_i hFinite
          exact ⟨key, weight, x, rfl, noColon, by simpa using hKey, hNumber, hFinite⟩
        · cases h
      · cases h
  · rintro ⟨key, weight, x, hItem, noColon, hKey, hNumber, hFinite⟩
    rw [cutLastColon?_eq_some_iff.mpr ⟨hItem, noColon⟩]
    simp [hKey, hNumber, hFinite]

instance (item : List Char) : Decidable (IsPair item) := decidable_of_iff _ isSome_pair?_iff

theorem isSome_mapM_pair?_iff {items : List (List Char)} :
    (items.mapM pair?).isSome = true ↔ ∀ item ∈ items, IsPair item := by
  induction items with
  | nil => simp
  | cons item items ih =>
    rw [List.forall_mem_cons, ← ih, ← isSome_pair?_iff, List.mapM_cons]
    cases pair? item <;> cases items.mapM pair? <;> simp

/-! ### Classification -/

theorem ofChars_eq_single_iff {raw : List Char} {t : String} :
    ofChars raw = .single t ↔
      pairs? (itemsOf raw) = none ∧ ',' ∉ raw ∧ t = String.ofList (Text.trimChars raw) := by
  unfold ofChars
  dsimp only
  split
  · rename_i hPairs
    simp [hPairs]
  · rename_i hPairs
    by_cases comma : ',' ∈ raw
    · simp [comma]
    · simp [hPairs, comma, eq_comm]

theorem ofChars_eq_list_iff {raw : List Char} {items : List String} :
    ofChars raw = .list items ↔
      pairs? (itemsOf raw) = none ∧ ',' ∈ raw ∧ items = (itemsOf raw).map String.ofList := by
  unfold ofChars
  dsimp only
  split
  · rename_i hPairs
    simp [hPairs]
  · rename_i hPairs
    by_cases comma : ',' ∈ raw
    · simp [hPairs, comma, eq_comm]
    · simp [comma]

/-- A trimmed text that is not blank is a single value if it has no comma and is no pair. -/
theorem ofText_eq_single_iff {t : String} (notBlank : t ≠ "")
    (trimmed : Text.trimChars t.toList = t.toList) :
    ofText t = .single t ↔ ',' ∉ t.toList ∧ ¬ IsPair t.toList := by
  rw [ofText, ofChars_eq_single_iff, trimmed, String.ofList_toList]
  have hItems (noComma : ',' ∉ t.toList) : itemsOf t.toList = [t.toList] := by
    rw [itemsOf_of_noComma noComma, trimmed]
    simpa using notBlank
  have hPairs : pairs? [t.toList] = none ↔ ¬ IsPair t.toList := by
    rw [← isSome_pair?_iff]
    cases hPair : pair? t.toList <;> simp [pairs?, hPair]
  constructor
  · rintro ⟨none, noComma, -⟩
    rw [hItems noComma] at none
    exact ⟨noComma, hPairs.mp none⟩
  · rintro ⟨noComma, noPair⟩
    rw [hItems noComma]
    exact ⟨hPairs.mpr noPair, noComma, rfl⟩

/-! ### Written and read again -/

def IsWeighted : Setting → Prop
  | .weighted _ => True
  | _ => False

theorem isWeighted_ofChars_iff {raw : List Char} :
    (ofChars raw).IsWeighted ↔ itemsOf raw ≠ [] ∧ ∀ item ∈ itemsOf raw, IsPair item := by
  rw [← isSome_mapM_pair?_iff]
  unfold ofChars pairs?
  by_cases none : itemsOf raw = []
  · by_cases comma : ',' ∈ raw <;> simp [none, comma, IsWeighted]
  · rcases hPairs : (itemsOf raw).mapM pair? with _ | pairs
    · by_cases comma : ',' ∈ raw <;> simp [none, hPairs, comma, IsWeighted]
    · simp [none, hPairs, IsWeighted]

/-- What the written form of a list is. -/
def ofItems : List String → Setting
  | [] => .single ""
  | [item] => .single item
  | items => .list items

theorem comma_mem_intercalate_iff {items : List (List Char)} (h : ∀ item ∈ items, IsItem item) :
    ',' ∈ [','].intercalate items ↔ 2 ≤ items.length := by
  rcases items with _ | ⟨first, _ | ⟨second, items⟩⟩
  · simp
  · have hFirst := (h first List.mem_cons_self).noComma
    simpa using hFirst
  · rw [List.intercalate_cons_cons]
    simp

theorem ofText_text_single {raw t : String} (h : ofText raw = .single t) :
    ofText (Setting.single t).text = .single t := by
  obtain ⟨noPairs, noComma, rfl⟩ := ofChars_eq_single_iff.mp h
  have hStill : ',' ∉ Text.trimChars raw.toList := by
    obtain ⟨front, back, hRaw, -, -⟩ := Text.trimChars_within raw.toList
    intro hComma
    rw [hRaw] at noComma
    exact noComma (by simp [hComma])
  have hItems : itemsOf (Text.trimChars raw.toList) = itemsOf raw.toList := by
    rw [itemsOf_of_noComma noComma, itemsOf_of_noComma hStill, Text.trimChars_trimChars]
  refine ofChars_eq_single_iff.mpr ?_
  rw [text, String.toList_ofList, hItems, Text.trimChars_trimChars]
  exact ⟨noPairs, hStill, rfl⟩

theorem ofText_text_list {raw : String} {items : List String} (h : ofText raw = .list items) :
    ofText (Setting.list items).text = ofItems items := by
  obtain ⟨noPairs, -, rfl⟩ := ofChars_eq_list_iff.mp h
  have hAll : ∀ item ∈ itemsOf raw.toList, IsItem item := (items_of_itemsOf raw.toList).isItem
  have hText : (Setting.list ((itemsOf raw.toList).map String.ofList)).text.toList =
      [','].intercalate (itemsOf raw.toList) := by
    simp [text, String.toList_intercalate, Function.comp_def]
  have hItems := itemsOf_intercalate hAll
  have hComma := comma_mem_intercalate_iff hAll
  rw [ofText, hText]
  rcases hList : itemsOf raw.toList with _ | ⟨first, _ | ⟨second, more⟩⟩
  · rfl
  · rw [hList] at hItems hComma noPairs hAll
    rw [List.map_singleton, ofItems, ofChars_eq_single_iff, hItems]
    refine ⟨noPairs, hComma.not.mpr (by simp), ?_⟩
    rw [List.intercalate_singleton, (hAll first List.mem_cons_self).trimmed]
  · rw [hList] at hItems hComma noPairs
    refine ofChars_eq_list_iff.mpr ?_
    rw [hItems]
    exact ⟨noPairs, hComma.mpr (by simp), rfl⟩

/-- **What is written of a setting is read as the setting.** A text is a weighted list if it has items
and each is a pair. A single value is the trimmed text, and is read again as it is. The items of a list
are those of the text in their order, trimmed, not empty and without commas. They are read again as the
same list if there are at least two of them, else as a single value. So nothing becomes a weighted list
that is not one. -/
theorem ofText_text (raw : String) :
    (∃ items, Items raw.toList items ∧
      ((ofText raw).IsWeighted ↔ items ≠ [] ∧ ∀ item ∈ items, IsPair item)) ∧
    (∀ t, ofText raw = .single t →
      t.toList = Text.trimChars raw.toList ∧ ofText (Setting.single t).text = .single t) ∧
    (∀ items, ofText raw = .list items →
      (∀ item ∈ items, IsItem item.toList) ∧ Items raw.toList (items.map String.toList) ∧
        (2 ≤ items.length → ofText (Setting.list items).text = .list items) ∧
        (∀ item, items = [item] → ofText (Setting.list items).text = .single item) ∧
        (items = [] → ofText (Setting.list items).text = .single "")) ∧
    (¬ (ofText raw).IsWeighted → ¬ (ofText (ofText raw).text).IsWeighted) := by
  refine ⟨⟨_, items_of_itemsOf raw.toList, isWeighted_ofChars_iff⟩, ?_, ?_, ?_⟩
  · intro t h
    refine ⟨?_, ofText_text_single h⟩
    obtain ⟨-, -, rfl⟩ := ofChars_eq_single_iff.mp h
    exact String.toList_ofList
  · intro items h
    have hReread := ofText_text_list h
    obtain ⟨-, -, rfl⟩ := ofChars_eq_list_iff.mp h
    have hItems := items_of_itemsOf raw.toList
    refine ⟨?_, ?_, ?_, ?_, ?_⟩
    · intro item hItem
      obtain ⟨cs, hcs, rfl⟩ := List.mem_map.mp hItem
      rw [String.toList_ofList]
      exact hItems.isItem cs hcs
    · simpa [Function.comp_def] using hItems
    · intro two
      rw [hReread]
      rcases hList : itemsOf raw.toList with _ | ⟨first, _ | ⟨second, more⟩⟩
      · simp [hList] at two
      · simp [hList] at two
      · rfl
    · intro item one
      rw [hReread, one]
      rfl
    · intro none
      rw [hReread, none]
      rfl
  · intro notWeighted
    rcases hSetting : ofText raw with t | items | pairs
    · rw [ofText_text_single hSetting]
      exact not_false
    · rw [ofText_text_list hSetting]
      rcases items with _ | ⟨first, _ | ⟨second, more⟩⟩ <;> exact not_false
    · rw [hSetting] at notWeighted
      exact absurd trivial notWeighted

/-- A pair among other items, and one that is left by itself. -/
theorem ofText_text_of_pairs :
    ofText " tea ,, 5:1 " = .list ["tea", "5:1"] ∧
      ofText (Setting.list ["tea", "5:1"]).text = .list ["tea", "5:1"] ∧
      ofText " 5:one ," = .list ["5:one"] ∧
      ofText (Setting.list ["5:one"]).text = .single "5:one" := by
  have hTwo : ofText " tea ,, 5:1 " = .list ["tea", "5:1"] := by decide +kernel
  have hOne : ofText " 5:one ," = .list ["5:one"] := by decide +kernel
  obtain ⟨-, -, hList, -, -⟩ := (ofText_text " tea ,, 5:1 ").2.2.1 _ hTwo
  obtain ⟨-, -, -, hSingle, -⟩ := (ofText_text " 5:one ,").2.2.1 _ hOne
  exact ⟨hTwo, hList (by decide), hOne, hSingle _ rfl⟩

end Setting

end Directive
