/-
The built-in romaji table.

The rules stand in the order of their keys.  No key of the table is the beginning of
another, so that every rule resolves on its last letter; `n` alone is no rule but the
beginning of many, and is read as ん by transliteration.
-/
import KanaKanji.Romaji.Table

namespace KanaKanji

namespace RomajiTable

/-- The built-in rules. -/
def builtinRules : List (String × String) :=
  [(",", "、"), ("-", "ー"), (".", "。"), ("[", "「"), ("]", "」"), ("a", "あ"), ("ba", "ば"),
   ("be", "べ"), ("bi", "び"), ("bo", "ぼ"), ("bu", "ぶ"), ("bya", "びゃ"), ("bye", "びぇ"),
   ("byi", "びぃ"), ("byo", "びょ"), ("byu", "びゅ"), ("cha", "ちゃ"), ("che", "ちぇ"), ("chi", "ち"),
   ("cho", "ちょ"), ("chu", "ちゅ"), ("cya", "ちゃ"), ("cye", "ちぇ"), ("cyi", "ちぃ"),
   ("cyo", "ちょ"), ("cyu", "ちゅ"), ("da", "だ"), ("de", "で"), ("dhi", "でぃ"), ("di", "ぢ"),
   ("do", "ど"), ("du", "づ"), ("dwu", "どぅ"), ("dya", "ぢゃ"), ("dye", "ぢぇ"), ("dyi", "ぢぃ"),
   ("dyo", "ぢょ"), ("dyu", "ぢゅ"), ("e", "え"), ("fa", "ふぁ"), ("fe", "ふぇ"), ("fi", "ふぃ"),
   ("fo", "ふぉ"), ("fu", "ふ"), ("ga", "が"), ("ge", "げ"), ("gi", "ぎ"), ("go", "ご"),
   ("gu", "ぐ"), ("gya", "ぎゃ"), ("gye", "ぎぇ"), ("gyi", "ぎぃ"), ("gyo", "ぎょ"), ("gyu", "ぎゅ"),
   ("ha", "は"), ("he", "へ"), ("hi", "ひ"), ("ho", "ほ"), ("hu", "ふ"), ("hya", "ひゃ"),
   ("hye", "ひぇ"), ("hyi", "ひぃ"), ("hyo", "ひょ"), ("hyu", "ひゅ"), ("i", "い"), ("ja", "じゃ"),
   ("je", "じぇ"), ("ji", "じ"), ("jo", "じょ"), ("ju", "じゅ"), ("jya", "じゃ"), ("jye", "じぇ"),
   ("jyi", "じぃ"), ("jyo", "じょ"), ("jyu", "じゅ"), ("ka", "か"), ("ke", "け"), ("ki", "き"),
   ("ko", "こ"), ("ku", "く"), ("kya", "きゃ"), ("kye", "きぇ"), ("kyi", "きぃ"), ("kyo", "きょ"),
   ("kyu", "きゅ"), ("ma", "ま"), ("me", "め"), ("mi", "み"), ("mo", "も"), ("mu", "む"),
   ("mya", "みゃ"), ("mye", "みぇ"), ("myi", "みぃ"), ("myo", "みょ"), ("myu", "みゅ"), ("n'", "ん"),
   ("na", "な"), ("ne", "ね"), ("ni", "に"), ("nn", "ん"), ("no", "の"), ("nu", "ぬ"),
   ("nya", "にゃ"), ("nye", "にぇ"), ("nyi", "にぃ"), ("nyo", "にょ"), ("nyu", "にゅ"), ("o", "お"),
   ("pa", "ぱ"), ("pe", "ぺ"), ("pi", "ぴ"), ("po", "ぽ"), ("pu", "ぷ"), ("pya", "ぴゃ"),
   ("pye", "ぴぇ"), ("pyi", "ぴぃ"), ("pyo", "ぴょ"), ("pyu", "ぴゅ"), ("ra", "ら"), ("re", "れ"),
   ("ri", "り"), ("ro", "ろ"), ("ru", "る"), ("rya", "りゃ"), ("rye", "りぇ"), ("ryi", "りぃ"),
   ("ryo", "りょ"), ("ryu", "りゅ"), ("sa", "さ"), ("se", "せ"), ("sha", "しゃ"), ("she", "しぇ"),
   ("shi", "し"), ("sho", "しょ"), ("shu", "しゅ"), ("si", "し"), ("so", "そ"), ("su", "す"),
   ("sya", "しゃ"), ("sye", "しぇ"), ("syi", "しぃ"), ("syo", "しょ"), ("syu", "しゅ"), ("ta", "た"),
   ("te", "て"), ("thi", "てぃ"), ("ti", "ち"), ("to", "と"), ("tsa", "つぁ"), ("tse", "つぇ"),
   ("tsi", "つぃ"), ("tso", "つぉ"), ("tsu", "つ"), ("tu", "つ"), ("twu", "とぅ"), ("tya", "ちゃ"),
   ("tye", "ちぇ"), ("tyi", "ちぃ"), ("tyo", "ちょ"), ("tyu", "ちゅ"), ("u", "う"), ("va", "ゔぁ"),
   ("ve", "ゔぇ"), ("vi", "ゔぃ"), ("vo", "ゔぉ"), ("vu", "ゔ"), ("wa", "わ"), ("we", "うぇ"),
   ("wha", "うぁ"), ("whe", "うぇ"), ("whi", "うぃ"), ("who", "うぉ"), ("wi", "うぃ"), ("wo", "を"),
   ("wu", "う"), ("xa", "ぁ"), ("xe", "ぇ"), ("xi", "ぃ"), ("xka", "ゕ"), ("xke", "ゖ"),
   ("xo", "ぉ"), ("xtsu", "っ"), ("xtu", "っ"), ("xu", "ぅ"), ("xwa", "ゎ"), ("xya", "ゃ"),
   ("xyo", "ょ"), ("xyu", "ゅ"), ("ya", "や"), ("ye", "いぇ"), ("yi", "い"), ("yo", "よ"),
   ("yu", "ゆ"), ("z,", "‥"), ("z-", "〜"), ("z.", "…"), ("z/", "・"), ("z[", "『"),
   ("z]", "』"), ("za", "ざ"), ("ze", "ぜ"), ("zh", "←"), ("zi", "じ"), ("zj", "↓"),
   ("zk", "↑"), ("zl", "→"), ("zo", "ぞ"), ("zu", "ず"), ("zya", "じゃ"), ("zye", "じぇ"),
   ("zyi", "じぃ"), ("zyo", "じょ"), ("zyu", "じゅ")]

/-- The built-in rules as texts. -/
def builtinItems : List (Text × Text) :=
  builtinRules.map fun r => (r.1.toList, r.2.toList)

theorem ascends_builtinItems : ascends builtinItems = true := by decide +kernel

theorem firstFault_builtinItems : firstFault builtinItems = none := by decide +kernel

/-- The built-in table. -/
def builtin : RomajiTable where
  rules := ⟨builtinItems, ascending_of_ascends ascends_builtinItems⟩
  sound := firstFault_eq_none_iff.mp firstFault_builtinItems

end RomajiTable

end KanaKanji
