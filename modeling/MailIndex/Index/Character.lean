import MailIndex.Text.Range

/-!
# Characters of the index

Which characters make up the words of the index, and the form in which each of them is kept: lower
case, Latin letters without their diacritics. A character that the tables do not know yet counts as
part of a word.
-/

namespace MailIndex.Index

open Text

/-- The word characters from U+0080 on, as closed ranges in ascending order. -/
def wordRanges : List (Nat × Nat) := [
  (0xaa, 0xaa), (0xb2, 0xb3), (0xb5, 0xb5), (0xb9, 0xba), (0xbc, 0xbe), (0xc0, 0xd6),
  (0xd8, 0xf6), (0xf8, 0x2c1), (0x2c6, 0x2d1), (0x2e0, 0x2e4), (0x2ec, 0x2ec), (0x2ee, 0x2ee),
  (0x370, 0x374), (0x376, 0x37d), (0x37f, 0x383), (0x386, 0x386), (0x388, 0x3f5), (0x3f7, 0x481),
  (0x48a, 0x559), (0x560, 0x588), (0x58b, 0x58e), (0x590, 0x590), (0x5c8, 0x5f2), (0x5f5, 0x5ff),
  (0x605, 0x605), (0x61c, 0x61d), (0x620, 0x64a), (0x660, 0x669), (0x66e, 0x66f), (0x671, 0x6d3),
  (0x6d5, 0x6d5), (0x6e5, 0x6e6), (0x6ee, 0x6fc), (0x6ff, 0x6ff), (0x70e, 0x70e), (0x710, 0x710),
  (0x712, 0x72f), (0x74b, 0x7a5), (0x7b1, 0x7ea), (0x7f4, 0x7f5), (0x7fa, 0x815), (0x81a, 0x81a),
  (0x824, 0x824), (0x828, 0x828), (0x82e, 0x82f), (0x83f, 0x858), (0x85c, 0x85d), (0x85f, 0x8e3),
  (0x8ff, 0x8ff), (0x904, 0x939), (0x93d, 0x93d), (0x950, 0x950), (0x958, 0x961), (0x966, 0x96f),
  (0x971, 0x980), (0x984, 0x9bb), (0x9bd, 0x9bd), (0x9c5, 0x9c6), (0x9c9, 0x9ca), (0x9ce, 0x9d6),
  (0x9d8, 0x9e1), (0x9e4, 0x9f1), (0x9f4, 0x9f9), (0x9fc, 0xa00), (0xa04, 0xa3b), (0xa3d, 0xa3d),
  (0xa43, 0xa46), (0xa49, 0xa4a), (0xa4e, 0xa50), (0xa52, 0xa6f), (0xa72, 0xa74), (0xa76, 0xa80),
  (0xa84, 0xabb), (0xabd, 0xabd), (0xac6, 0xac6), (0xaca, 0xaca), (0xace, 0xae1), (0xae4, 0xaef),
  (0xaf2, 0xb00), (0xb04, 0xb3b), (0xb3d, 0xb3d), (0xb45, 0xb46), (0xb49, 0xb4a), (0xb4e, 0xb55),
  (0xb58, 0xb61), (0xb64, 0xb6f), (0xb71, 0xb81), (0xb83, 0xbbd), (0xbc3, 0xbc5), (0xbc9, 0xbc9),
  (0xbce, 0xbd6), (0xbd8, 0xbf2), (0xbfb, 0xc00), (0xc04, 0xc3d), (0xc45, 0xc45), (0xc49, 0xc49),
  (0xc4e, 0xc54), (0xc57, 0xc61), (0xc64, 0xc7e), (0xc80, 0xc81), (0xc84, 0xcbb), (0xcbd, 0xcbd),
  (0xcc5, 0xcc5), (0xcc9, 0xcc9), (0xcce, 0xcd4), (0xcd7, 0xce1), (0xce4, 0xd01), (0xd04, 0xd3d),
  (0xd45, 0xd45), (0xd49, 0xd49), (0xd4e, 0xd56), (0xd58, 0xd61), (0xd64, 0xd78), (0xd7a, 0xd81),
  (0xd84, 0xdc9), (0xdcb, 0xdce), (0xdd5, 0xdd5), (0xdd7, 0xdd7), (0xde0, 0xdf1), (0xdf5, 0xe30),
  (0xe32, 0xe33), (0xe3b, 0xe3e), (0xe40, 0xe46), (0xe50, 0xe59), (0xe5c, 0xeb0), (0xeb2, 0xeb3),
  (0xeba, 0xeba), (0xebd, 0xec7), (0xece, 0xf00), (0xf20, 0xf33), (0xf40, 0xf70), (0xf88, 0xf8c),
  (0xf98, 0xf98), (0xfbd, 0xfbd), (0xfcd, 0xfcd), (0xfdb, 0x102a), (0x103f, 0x1049),
  (0x1050, 0x1055), (0x105a, 0x105d), (0x1061, 0x1061), (0x1065, 0x1066), (0x106e, 0x1070),
  (0x1075, 0x1081), (0x108e, 0x108e), (0x1090, 0x1099), (0x10a0, 0x10fa), (0x10fc, 0x135c),
  (0x1369, 0x138f), (0x139a, 0x13ff), (0x1401, 0x166c), (0x166f, 0x167f), (0x1681, 0x169a),
  (0x169d, 0x16ea), (0x16ee, 0x1711), (0x1715, 0x1731), (0x1737, 0x1751), (0x1754, 0x1771),
  (0x1774, 0x17b3), (0x17d7, 0x17d7), (0x17dc, 0x17dc), (0x17de, 0x17ff), (0x180f, 0x18a8),
  (0x18aa, 0x191f), (0x192c, 0x192f), (0x193c, 0x193f), (0x1941, 0x1943), (0x1946, 0x19af),
  (0x19c1, 0x19c7), (0x19ca, 0x19dd), (0x1a00, 0x1a16), (0x1a1c, 0x1a1d), (0x1a20, 0x1a54),
  (0x1a5f, 0x1a5f), (0x1a7d, 0x1a7e), (0x1a80, 0x1a9f), (0x1aa7, 0x1aa7), (0x1aae, 0x1aff),
  (0x1b05, 0x1b33), (0x1b45, 0x1b59), (0x1b7d, 0x1b7f), (0x1b83, 0x1ba0), (0x1bae, 0x1be5),
  (0x1bf4, 0x1bfb), (0x1c00, 0x1c23), (0x1c38, 0x1c3a), (0x1c40, 0x1c7d), (0x1c80, 0x1cbf),
  (0x1cc8, 0x1ccf), (0x1ce9, 0x1cec), (0x1cee, 0x1cf1), (0x1cf5, 0x1dbf), (0x1de7, 0x1dfb),
  (0x1e00, 0x1fbc), (0x1fbe, 0x1fbe), (0x1fc2, 0x1fcc), (0x1fd0, 0x1fdc), (0x1fe0, 0x1fec),
  (0x1ff0, 0x1ffc), (0x1fff, 0x1fff), (0x2065, 0x2069), (0x2070, 0x2079), (0x207f, 0x2089),
  (0x208f, 0x209f), (0x20ba, 0x20cf), (0x20f1, 0x20ff), (0x2102, 0x2102), (0x2107, 0x2107),
  (0x210a, 0x2113), (0x2115, 0x2115), (0x2119, 0x211d), (0x2124, 0x2124), (0x2126, 0x2126),
  (0x2128, 0x2128), (0x212a, 0x212d), (0x212f, 0x2139), (0x213c, 0x213f), (0x2145, 0x2149),
  (0x214e, 0x214e), (0x2150, 0x218f), (0x23f4, 0x23ff), (0x2427, 0x243f), (0x244b, 0x249b),
  (0x24ea, 0x24ff), (0x2700, 0x2700), (0x2776, 0x2793), (0x2b4d, 0x2b4f), (0x2b5a, 0x2ce4),
  (0x2ceb, 0x2cee), (0x2cf2, 0x2cf8), (0x2cfd, 0x2cfd), (0x2d00, 0x2d6f), (0x2d71, 0x2d7e),
  (0x2d80, 0x2ddf), (0x2e2f, 0x2e2f), (0x2e3c, 0x2e7f), (0x2e9a, 0x2e9a), (0x2ef4, 0x2eff),
  (0x2fd6, 0x2fef), (0x2ffc, 0x2fff), (0x3005, 0x3007), (0x3021, 0x3029), (0x3031, 0x3035),
  (0x3038, 0x303c), (0x3040, 0x3098), (0x309d, 0x309f), (0x30a1, 0x30fa), (0x30fc, 0x318f),
  (0x3192, 0x3195), (0x31a0, 0x31bf), (0x31e4, 0x31ff), (0x321f, 0x3229), (0x3248, 0x324f),
  (0x3251, 0x325f), (0x3280, 0x3289), (0x32b1, 0x32bf), (0x32ff, 0x32ff), (0x3400, 0x4dbf),
  (0x4e00, 0xa48f), (0xa4c7, 0xa4fd), (0xa500, 0xa60c), (0xa610, 0xa66e), (0xa67f, 0xa69e),
  (0xa6a0, 0xa6ef), (0xa6f8, 0xa6ff), (0xa717, 0xa71f), (0xa722, 0xa788), (0xa78b, 0xa801),
  (0xa803, 0xa805), (0xa807, 0xa80a), (0xa80c, 0xa822), (0xa82c, 0xa835), (0xa83a, 0xa873),
  (0xa878, 0xa87f), (0xa882, 0xa8b3), (0xa8c5, 0xa8cd), (0xa8d0, 0xa8df), (0xa8f2, 0xa8f7),
  (0xa8fb, 0xa925), (0xa930, 0xa946), (0xa954, 0xa95e), (0xa960, 0xa97f), (0xa984, 0xa9b2),
  (0xa9ce, 0xa9dd), (0xa9e0, 0xaa28), (0xaa37, 0xaa42), (0xaa44, 0xaa4b), (0xaa4e, 0xaa5b),
  (0xaa60, 0xaa76), (0xaa7a, 0xaa7a), (0xaa7c, 0xaaaf), (0xaab1, 0xaab1), (0xaab5, 0xaab6),
  (0xaab9, 0xaabd), (0xaac0, 0xaac0), (0xaac2, 0xaadd), (0xaae0, 0xaaea), (0xaaf2, 0xaaf4),
  (0xaaf7, 0xabe2), (0xabee, 0xd7ff), (0xe000, 0xfb1d), (0xfb1f, 0xfb28), (0xfb2a, 0xfbb1),
  (0xfbc2, 0xfd3d), (0xfd40, 0xfdfb), (0xfdfe, 0xfdff), (0xfe1a, 0xfe1f), (0xfe27, 0xfe2f),
  (0xfe53, 0xfe53), (0xfe67, 0xfe67), (0xfe6c, 0xfefe), (0xff00, 0xff00), (0xff10, 0xff19),
  (0xff21, 0xff3a), (0xff41, 0xff5a), (0xff66, 0xffdf), (0xffe7, 0xffe7), (0xffef, 0xfff8),
  (0x10000, 0x100ff), (0x10103, 0x10136), (0x10140, 0x10178), (0x1018a, 0x1018f),
  (0x1019c, 0x101cf), (0x101fe, 0x1039e), (0x103a0, 0x103cf), (0x103d1, 0x10856),
  (0x10858, 0x1091e), (0x10920, 0x1093e), (0x10940, 0x10a00), (0x10a04, 0x10a04),
  (0x10a07, 0x10a0b), (0x10a10, 0x10a37), (0x10a3b, 0x10a3e), (0x10a40, 0x10a4f),
  (0x10a59, 0x10a7e), (0x10a80, 0x10b38), (0x10b40, 0x10fff), (0x11003, 0x11037),
  (0x1104e, 0x1107f), (0x11083, 0x110af), (0x110c2, 0x110ff), (0x11103, 0x11126),
  (0x11135, 0x1113f), (0x11144, 0x1117f), (0x11183, 0x111b2), (0x111c1, 0x111c4),
  (0x111c9, 0x116aa), (0x116b8, 0x1246f), (0x12474, 0x16f50), (0x16f7f, 0x16f8e),
  (0x16f93, 0x1cfff), (0x1d0f6, 0x1d0ff), (0x1d127, 0x1d128), (0x1d1de, 0x1d1ff),
  (0x1d246, 0x1d2ff), (0x1d357, 0x1d6c0), (0x1d6c2, 0x1d6da), (0x1d6dc, 0x1d6fa),
  (0x1d6fc, 0x1d714), (0x1d716, 0x1d734), (0x1d736, 0x1d74e), (0x1d750, 0x1d76e),
  (0x1d770, 0x1d788), (0x1d78a, 0x1d7a8), (0x1d7aa, 0x1d7c2), (0x1d7c4, 0x1eeef),
  (0x1eef2, 0x1efff), (0x1f02c, 0x1f02f), (0x1f094, 0x1f09f), (0x1f0af, 0x1f0b0),
  (0x1f0bf, 0x1f0c0), (0x1f0d0, 0x1f0d0), (0x1f0e0, 0x1f10f), (0x1f12f, 0x1f12f),
  (0x1f16c, 0x1f16f), (0x1f19b, 0x1f1e5), (0x1f203, 0x1f20f), (0x1f23b, 0x1f23f),
  (0x1f249, 0x1f24f), (0x1f252, 0x1f2ff), (0x1f321, 0x1f32f), (0x1f336, 0x1f336),
  (0x1f37d, 0x1f37f), (0x1f394, 0x1f39f), (0x1f3c5, 0x1f3c5), (0x1f3cb, 0x1f3df),
  (0x1f3f1, 0x1f3ff), (0x1f43f, 0x1f43f), (0x1f441, 0x1f441), (0x1f4f8, 0x1f4f8),
  (0x1f4fd, 0x1f4ff), (0x1f53e, 0x1f53f), (0x1f544, 0x1f54f), (0x1f568, 0x1f5fa),
  (0x1f641, 0x1f644), (0x1f650, 0x1f67f), (0x1f6c6, 0x1f6ff), (0x1f774, 0xe0000),
  (0xe0002, 0xe001f), (0xe0080, 0xe00ff), (0xe01f0, 0x10ffff)]

def isWordChar (c : Char) : Bool :=
  if c.val < 0x80 then c.isAlphanum else inRanges wordRanges c

def markRanges : List (Nat × Nat) := [
  (0x300, 0x304), (0x306, 0x30c), (0x30f, 0x30f), (0x311, 0x311), (0x31b, 0x31b),
  (0x323, 0x328), (0x32d, 0x32e), (0x330, 0x331)]

/-- Whether a character is passed over inside a word; it does not begin one. -/
def isMark (c : Char) : Bool := inRanges markRanges c

def accented : List (Char × Text) := [
  ('a', "ÀÁÂÃÄÅàáâãäåĀāĂăĄąǍǎȀȁȂȃȦȧḀḁẠạẢảÅ".toList),
  ('b', "ḂḃḄḅḆḇ".toList),
  ('c', "ÇçĆćĈĉĊċČč".toList),
  ('d', "ĎďḊḋḌḍḎḏḐḑḒḓ".toList),
  ('e', "ÈÉÊËèéêëĒēĔĕĖėĘęĚěȄȅȆȇȨȩḘḙḚḛẸẹẺẻẼẽ".toList),
  ('f', "Ḟḟ".toList),
  ('g', "ĜĝĞğĠġĢģǦǧǴǵḠḡ".toList),
  ('h', "ĤĥȞȟḢḣḤḥḦḧḨḩḪḫẖ".toList),
  ('i', "ÌÍÎÏìíîïĨĩĪīĬĭĮįİǏǐȈȉȊȋḬḭỈỉỊị".toList),
  ('j', "Ĵĵǰ".toList),
  ('k', "ĶķǨǩḰḱḲḳḴḵK".toList),
  ('l', "ĹĺĻļĽľḶḷḺḻḼḽ".toList),
  ('m', "ḾḿṀṁṂṃ".toList),
  ('n', "ÑñŃńŅņŇňǸǹṄṅṆṇṈṉṊṋ".toList),
  ('o', "ÒÓÔÕÖòóôõöŌōŎŏŐőƠơǑǒǪǫȌȍȎȏȮȯỌọỎỏ".toList),
  ('p', "ṔṕṖṗ".toList),
  ('r', "ŔŕŖŗŘřȐȑȒȓṘṙṚṛṞṟ".toList),
  ('s', "ŚśŜŝŞşŠšſȘșṠṡṢṣẛ".toList),
  ('t', "ŢţŤťȚțṪṫṬṭṮṯṰṱẗ".toList),
  ('u', "ÙÚÛÜùúûüŨũŪūŬŭŮůŰűŲųƯưǓǔȔȕȖȗṲṳṴṵṶṷỤụỦủ".toList),
  ('v', "ṼṽṾṿ".toList),
  ('w', "ŴŵẀẁẂẃẄẅẆẇẈẉẘ".toList),
  ('x', "ẊẋẌẍ".toList),
  ('y', "ÝýÿŶŷŸȲȳẎẏẙỲỳỴỵỶỷỸỹ".toList),
  ('z', "ŹźŻżŽžẐẑẒẓẔẕ".toList)]

/-- The other characters from U+0080 on with a lower-case form of their own. -/
def foldBlocks : List CaseBlock := [
  ⟨0xb5, 0xb5, 1, 0x3bc⟩, ⟨0xc6, 0xc6, 1, 0xe6⟩, ⟨0xd0, 0xd0, 1, 0xf0⟩, ⟨0xd8, 0xd8, 1, 0xf8⟩,
  ⟨0xde, 0xde, 1, 0xfe⟩, ⟨0x110, 0x110, 1, 0x111⟩, ⟨0x126, 0x126, 1, 0x127⟩,
  ⟨0x132, 0x132, 1, 0x133⟩, ⟨0x13f, 0x141, 2, 0x140⟩, ⟨0x14a, 0x14a, 1, 0x14b⟩,
  ⟨0x152, 0x152, 1, 0x153⟩, ⟨0x166, 0x166, 1, 0x167⟩, ⟨0x181, 0x181, 1, 0x253⟩,
  ⟨0x182, 0x184, 2, 0x183⟩, ⟨0x186, 0x186, 1, 0x254⟩, ⟨0x187, 0x187, 1, 0x188⟩,
  ⟨0x189, 0x18a, 1, 0x256⟩, ⟨0x18b, 0x18b, 1, 0x18c⟩, ⟨0x18e, 0x18e, 1, 0x1dd⟩,
  ⟨0x18f, 0x18f, 1, 0x259⟩, ⟨0x190, 0x190, 1, 0x25b⟩, ⟨0x191, 0x191, 1, 0x192⟩,
  ⟨0x193, 0x193, 1, 0x260⟩, ⟨0x194, 0x194, 1, 0x263⟩, ⟨0x196, 0x196, 1, 0x269⟩,
  ⟨0x197, 0x197, 1, 0x268⟩, ⟨0x198, 0x198, 1, 0x199⟩, ⟨0x19c, 0x19c, 1, 0x26f⟩,
  ⟨0x19d, 0x19d, 1, 0x272⟩, ⟨0x19f, 0x19f, 1, 0x275⟩, ⟨0x1a2, 0x1a4, 2, 0x1a3⟩,
  ⟨0x1a6, 0x1a6, 1, 0x280⟩, ⟨0x1a7, 0x1a7, 1, 0x1a8⟩, ⟨0x1a9, 0x1a9, 1, 0x283⟩,
  ⟨0x1ac, 0x1ac, 1, 0x1ad⟩, ⟨0x1ae, 0x1ae, 1, 0x288⟩, ⟨0x1b1, 0x1b2, 1, 0x28a⟩,
  ⟨0x1b3, 0x1b5, 2, 0x1b4⟩, ⟨0x1b7, 0x1b7, 1, 0x292⟩, ⟨0x1b8, 0x1b8, 1, 0x1b9⟩,
  ⟨0x1bc, 0x1bc, 1, 0x1bd⟩, ⟨0x1c4, 0x1c4, 1, 0x1c6⟩, ⟨0x1c5, 0x1c5, 1, 0x1c6⟩,
  ⟨0x1c7, 0x1c7, 1, 0x1c9⟩, ⟨0x1c8, 0x1c8, 1, 0x1c9⟩, ⟨0x1ca, 0x1ca, 1, 0x1cc⟩,
  ⟨0x1cb, 0x1cb, 1, 0x1cc⟩, ⟨0x1d5, 0x1db, 2, 0x1d6⟩, ⟨0x1de, 0x1e4, 2, 0x1df⟩,
  ⟨0x1ec, 0x1ee, 2, 0x1ed⟩, ⟨0x1f1, 0x1f1, 1, 0x1f3⟩, ⟨0x1f2, 0x1f2, 1, 0x1f3⟩,
  ⟨0x1f6, 0x1f6, 1, 0x195⟩, ⟨0x1f7, 0x1f7, 1, 0x1bf⟩, ⟨0x1fa, 0x1fe, 2, 0x1fb⟩,
  ⟨0x21c, 0x21c, 1, 0x21d⟩, ⟨0x220, 0x220, 1, 0x19e⟩, ⟨0x222, 0x224, 2, 0x223⟩,
  ⟨0x22a, 0x22c, 2, 0x22b⟩, ⟨0x230, 0x230, 1, 0x231⟩, ⟨0x23a, 0x23a, 1, 0x2c65⟩,
  ⟨0x23b, 0x23b, 1, 0x23c⟩, ⟨0x23d, 0x23d, 1, 0x19a⟩, ⟨0x23e, 0x23e, 1, 0x2c66⟩,
  ⟨0x241, 0x241, 1, 0x242⟩, ⟨0x243, 0x243, 1, 0x180⟩, ⟨0x244, 0x244, 1, 0x289⟩,
  ⟨0x245, 0x245, 1, 0x28c⟩, ⟨0x246, 0x24e, 2, 0x247⟩, ⟨0x370, 0x372, 2, 0x371⟩,
  ⟨0x376, 0x376, 1, 0x377⟩, ⟨0x386, 0x386, 1, 0x3ac⟩, ⟨0x388, 0x38a, 1, 0x3ad⟩,
  ⟨0x38c, 0x38c, 1, 0x3cc⟩, ⟨0x38e, 0x38f, 1, 0x3cd⟩, ⟨0x391, 0x3a1, 1, 0x3b1⟩,
  ⟨0x3a3, 0x3ab, 1, 0x3c3⟩, ⟨0x3c2, 0x3c2, 1, 0x3c3⟩, ⟨0x3cf, 0x3cf, 1, 0x3d7⟩,
  ⟨0x3d0, 0x3d0, 1, 0x3b2⟩, ⟨0x3d1, 0x3d1, 1, 0x3b8⟩, ⟨0x3d5, 0x3d5, 1, 0x3c6⟩,
  ⟨0x3d6, 0x3d6, 1, 0x3c0⟩, ⟨0x3d8, 0x3ee, 2, 0x3d9⟩, ⟨0x3f0, 0x3f0, 1, 0x3ba⟩,
  ⟨0x3f1, 0x3f1, 1, 0x3c1⟩, ⟨0x3f4, 0x3f4, 1, 0x3b8⟩, ⟨0x3f5, 0x3f5, 1, 0x3b5⟩,
  ⟨0x3f7, 0x3f7, 1, 0x3f8⟩, ⟨0x3f9, 0x3f9, 1, 0x3f2⟩, ⟨0x3fa, 0x3fa, 1, 0x3fb⟩,
  ⟨0x3fd, 0x3ff, 1, 0x37b⟩, ⟨0x400, 0x40f, 1, 0x450⟩, ⟨0x410, 0x42f, 1, 0x430⟩,
  ⟨0x460, 0x480, 2, 0x461⟩, ⟨0x48a, 0x4be, 2, 0x48b⟩, ⟨0x4c0, 0x4c0, 1, 0x4cf⟩,
  ⟨0x4c1, 0x4cd, 2, 0x4c2⟩, ⟨0x4d0, 0x526, 2, 0x4d1⟩, ⟨0x531, 0x556, 1, 0x561⟩,
  ⟨0x10a0, 0x10c5, 1, 0x2d00⟩, ⟨0x10c7, 0x10c7, 1, 0x2d27⟩, ⟨0x10cd, 0x10cd, 1, 0x2d2d⟩,
  ⟨0x1e08, 0x1e08, 1, 0x1e09⟩, ⟨0x1e14, 0x1e16, 2, 0x1e15⟩, ⟨0x1e1c, 0x1e1c, 1, 0x1e1d⟩,
  ⟨0x1e2e, 0x1e2e, 1, 0x1e2f⟩, ⟨0x1e38, 0x1e38, 1, 0x1e39⟩, ⟨0x1e4c, 0x1e52, 2, 0x1e4d⟩,
  ⟨0x1e5c, 0x1e5c, 1, 0x1e5d⟩, ⟨0x1e64, 0x1e68, 2, 0x1e65⟩, ⟨0x1e78, 0x1e7a, 2, 0x1e79⟩,
  ⟨0x1e9e, 0x1e9e, 1, 0xdf⟩, ⟨0x1ea4, 0x1eb6, 2, 0x1ea5⟩, ⟨0x1ebe, 0x1ec6, 2, 0x1ebf⟩,
  ⟨0x1ed0, 0x1ee2, 2, 0x1ed1⟩, ⟨0x1ee8, 0x1ef0, 2, 0x1ee9⟩, ⟨0x1efa, 0x1efe, 2, 0x1efb⟩,
  ⟨0x1f08, 0x1f0f, 1, 0x1f00⟩, ⟨0x1f18, 0x1f1d, 1, 0x1f10⟩, ⟨0x1f28, 0x1f2f, 1, 0x1f20⟩,
  ⟨0x1f38, 0x1f3f, 1, 0x1f30⟩, ⟨0x1f48, 0x1f4d, 1, 0x1f40⟩, ⟨0x1f59, 0x1f5f, 2, 0x1f51⟩,
  ⟨0x1f68, 0x1f6f, 1, 0x1f60⟩, ⟨0x1f88, 0x1f8f, 1, 0x1f80⟩, ⟨0x1f98, 0x1f9f, 1, 0x1f90⟩,
  ⟨0x1fa8, 0x1faf, 1, 0x1fa0⟩, ⟨0x1fb8, 0x1fb9, 1, 0x1fb0⟩, ⟨0x1fba, 0x1fbb, 1, 0x1f70⟩,
  ⟨0x1fbc, 0x1fbc, 1, 0x1fb3⟩, ⟨0x1fbe, 0x1fbe, 1, 0x3b9⟩, ⟨0x1fc8, 0x1fcb, 1, 0x1f72⟩,
  ⟨0x1fcc, 0x1fcc, 1, 0x1fc3⟩, ⟨0x1fd8, 0x1fd9, 1, 0x1fd0⟩, ⟨0x1fda, 0x1fdb, 1, 0x1f76⟩,
  ⟨0x1fe8, 0x1fe9, 1, 0x1fe0⟩, ⟨0x1fea, 0x1feb, 1, 0x1f7a⟩, ⟨0x1fec, 0x1fec, 1, 0x1fe5⟩,
  ⟨0x1ff8, 0x1ff9, 1, 0x1f78⟩, ⟨0x1ffa, 0x1ffb, 1, 0x1f7c⟩, ⟨0x1ffc, 0x1ffc, 1, 0x1ff3⟩,
  ⟨0x2126, 0x2126, 1, 0x3c9⟩, ⟨0x2132, 0x2132, 1, 0x214e⟩, ⟨0x2160, 0x216f, 1, 0x2170⟩,
  ⟨0x2183, 0x2183, 1, 0x2184⟩, ⟨0x2c00, 0x2c2e, 1, 0x2c30⟩, ⟨0x2c60, 0x2c60, 1, 0x2c61⟩,
  ⟨0x2c62, 0x2c62, 1, 0x26b⟩, ⟨0x2c63, 0x2c63, 1, 0x1d7d⟩, ⟨0x2c64, 0x2c64, 1, 0x27d⟩,
  ⟨0x2c67, 0x2c6b, 2, 0x2c68⟩, ⟨0x2c6d, 0x2c6d, 1, 0x251⟩, ⟨0x2c6e, 0x2c6e, 1, 0x271⟩,
  ⟨0x2c6f, 0x2c6f, 1, 0x250⟩, ⟨0x2c70, 0x2c70, 1, 0x252⟩, ⟨0x2c72, 0x2c72, 1, 0x2c73⟩,
  ⟨0x2c75, 0x2c75, 1, 0x2c76⟩, ⟨0x2c7e, 0x2c7f, 1, 0x23f⟩, ⟨0x2c80, 0x2ce2, 2, 0x2c81⟩,
  ⟨0x2ceb, 0x2ced, 2, 0x2cec⟩, ⟨0x2cf2, 0x2cf2, 1, 0x2cf3⟩, ⟨0xa640, 0xa66c, 2, 0xa641⟩,
  ⟨0xa680, 0xa696, 2, 0xa681⟩, ⟨0xa722, 0xa72e, 2, 0xa723⟩, ⟨0xa732, 0xa76e, 2, 0xa733⟩,
  ⟨0xa779, 0xa77b, 2, 0xa77a⟩, ⟨0xa77d, 0xa77d, 1, 0x1d79⟩, ⟨0xa77e, 0xa786, 2, 0xa77f⟩,
  ⟨0xa78b, 0xa78b, 1, 0xa78c⟩, ⟨0xa78d, 0xa78d, 1, 0x265⟩, ⟨0xa790, 0xa792, 2, 0xa791⟩,
  ⟨0xa7a0, 0xa7a8, 2, 0xa7a1⟩, ⟨0xa7aa, 0xa7aa, 1, 0x266⟩, ⟨0xff21, 0xff3a, 1, 0xff41⟩,
  ⟨0x10400, 0x10427, 1, 0x10428⟩]

def baseLetter? (c : Char) : Option Char :=
  (accented.find? fun entry => entry.2.contains c).map (·.1)

def fold (c : Char) : Char :=
  if c.val < 0x80 then c.toLower else (baseLetter? c).getD (mapBlocks foldBlocks c)

end MailIndex.Index
