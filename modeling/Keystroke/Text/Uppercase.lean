/-!
# Upper-casing

The full upper-case mapping of Unicode, without language-dependent rules. Most characters map
to one character, and these mappings come in runs of equal distance; some map to two or three.
-/

namespace Keystroke

/-- A run of code points `first, first + step, …, last` that map to `target, target + step, …`. -/
structure CaseRun where
  first : Nat
  last : Nat
  step : Nat
  target : Nat

namespace CaseRun

def covers (run : CaseRun) (point : Nat) : Bool :=
  decide (run.first ≤ point) && decide (point ≤ run.last) && (point - run.first) % run.step == 0

/-- The code point that `point` maps to. -/
def apply (run : CaseRun) (point : Nat) : Nat :=
  run.target + (point - run.first)

end CaseRun

/-- Runs after `place`, each by its distance from the first code point of the one before, its
length, its step, and the distance to its target. -/
def caseRunsFrom (place : Nat) : List (Nat × Nat × Nat × Int) → List CaseRun
  | [] => []
  | (distance, length, step, shift) :: rest =>
    let first := place + distance
    ⟨first, first + length, step, (first + shift).toNat⟩ :: caseRunsFrom first rest

/-- The characters whose upper case is one other character. -/
def uppercaseRuns : List CaseRun :=
  caseRunsFrom 0
    [(97,25,1,-32),(84,0,1,743),(43,22,1,-32),(24,6,1,-32),(7,0,1,121),(2,46,2,-1),(48,0,1,-232),
     (2,4,2,-1),(7,14,2,-1),(17,44,2,-1),(47,4,2,-1),(5,0,1,-300),(1,0,1,195),(3,2,2,-1),
     (5,0,1,-1),(4,0,1,-1),(6,0,1,-1),(3,0,1,97),(4,0,1,-1),(1,0,1,163),(1,0,1,42561),(3,0,1,130),
     (3,4,2,-1),(7,0,1,-1),(5,0,1,-1),(3,0,1,-1),(4,2,2,-1),(5,0,1,-1),(4,0,1,-1),(2,0,1,56),
     (6,0,1,-1),(1,0,1,-2),(2,0,1,-1),(1,0,1,-2),(2,0,1,-1),(1,0,1,-2),(2,14,2,-1),(15,0,1,-79),
     (2,16,2,-1),(19,0,1,-1),(1,0,1,-2),(2,0,1,-1),(4,38,2,-1),(42,16,2,-1),(25,0,1,-1),
     (3,1,1,10815),(3,0,1,-1),(5,8,2,-1),(9,0,1,10783),(1,0,1,10780),(1,0,1,10782),(1,0,1,-210),
     (1,0,1,-206),(2,1,1,-205),(3,0,1,-202),(2,0,1,-203),(1,0,1,42319),(4,0,1,-205),(1,0,1,42315),
     (2,0,1,-207),(1,0,1,42343),(1,0,1,42280),(1,0,1,42308),(2,0,1,-209),(1,0,1,-211),
     (1,0,1,42308),(1,0,1,10743),(1,0,1,42305),(3,0,1,-211),(2,0,1,10749),(1,0,1,-213),
     (3,0,1,-214),(8,0,1,10727),(3,0,1,-218),(2,0,1,42307),(1,0,1,-218),(4,0,1,42282),(1,0,1,-218),
     (1,0,1,-69),(1,1,1,-217),(2,0,1,-71),(6,0,1,-219),(11,0,1,42261),(1,0,1,42258),(167,0,1,84),
     (44,2,2,-1),(6,0,1,-1),(4,2,1,130),(49,0,1,-38),(1,2,1,-37),(4,16,1,-32),(17,0,1,-31),
     (1,8,1,-32),(9,0,1,-64),(1,1,1,-63),(3,0,1,-62),(1,0,1,-57),(4,0,1,-47),(1,0,1,-54),
     (1,0,1,-8),(2,22,2,-1),(23,0,1,-86),(1,0,1,-80),(1,0,1,7),(1,0,1,-116),(2,0,1,-96),(3,0,1,-1),
     (3,0,1,-1),(53,31,1,-32),(32,15,1,-80),(17,32,2,-1),(42,52,2,-1),(55,12,2,-1),(13,0,1,-15),
     (2,94,2,-1),(144,37,1,-48),(2927,42,1,3008),(45,2,1,3008),(763,5,1,-8),(2184,0,1,-6254),
     (1,0,1,-6253),(1,0,1,-6244),(1,1,1,-6242),(2,0,1,-6243),(1,0,1,-6236),(1,0,1,-6181),
     (1,0,1,35266),(2,0,1,-1),(239,0,1,35332),(4,0,1,3814),(17,0,1,35384),(115,148,2,-1),
     (154,0,1,-59),(6,94,2,-1),(95,7,1,8),(16,5,1,8),(16,7,1,8),(16,7,1,8),(16,5,1,8),(17,6,2,8),
     (15,7,1,8),(16,1,1,74),(2,3,1,86),(4,1,1,100),(2,1,1,128),(2,1,1,112),(2,1,1,126),(52,1,1,8),
     (14,0,1,-7205),(18,1,1,8),(16,1,1,8),(5,0,1,7),(361,0,1,-28),(34,15,1,-16),(20,0,1,-1),
     (844,25,1,-26),(1888,47,1,-48),(49,0,1,-1),(4,0,1,-10795),(1,0,1,-10792),(2,4,2,-1),
     (11,0,1,-1),(3,0,1,-1),(11,98,2,-1),(107,2,2,-1),(7,0,1,-1),(13,37,1,-7264),(39,0,1,-7264),
     (6,0,1,-7264),(30996,44,2,-1),(64,26,2,-1),(162,12,2,-1),(16,60,2,-1),(71,2,2,-1),(5,8,2,-1),
     (13,0,1,-1),(5,2,2,-1),(3,0,1,48),(3,18,2,-1),(30,14,2,-1),(19,2,2,-1),(5,14,2,-1),
     (41,0,1,-1),(861,0,1,-928),(29,79,1,-38864),(21457,25,1,-32),(1255,39,1,-40),(176,35,1,-40),
     (191,10,1,-39),(12,14,1,-39),(16,6,1,-39),(8,1,1,-39),(1797,50,1,-64),(176,21,1,-32),
     (2896,31,1,-32),(21920,31,1,-32),(91,24,1,-27),(31335,33,1,-34)]

/-- The characters whose upper case is longer than one character. -/
def uppercaseExpansions : List (Nat × List Nat) :=
  [(0xDF,[0x53,0x53]),(0x149,[0x2BC,0x4E]),(0x1F0,[0x4A,0x30C]),(0x390,[0x399,0x308,0x301]),
   (0x3B0,[0x3A5,0x308,0x301]),(0x587,[0x535,0x552]),(0x1E96,[0x48,0x331]),(0x1E97,[0x54,0x308]),
   (0x1E98,[0x57,0x30A]),(0x1E99,[0x59,0x30A]),(0x1E9A,[0x41,0x2BE]),(0x1F50,[0x3A5,0x313]),
   (0x1F52,[0x3A5,0x313,0x300]),(0x1F54,[0x3A5,0x313,0x301]),(0x1F56,[0x3A5,0x313,0x342])] ++
  -- Greek capitals and small letters with an iota, which follows them
  ([(0x1F80,0x1F08),(0x1F90,0x1F28),(0x1FA0,0x1F68)].flatMap fun (first, capital) =>
    (List.range 16).map fun i => (first + i, [capital + i % 8, 0x399])) ++
  [(0x1FB2,[0x1FBA,0x399]),(0x1FB3,[0x391,0x399]),(0x1FB4,[0x386,0x399]),(0x1FB6,[0x391,0x342]),
   (0x1FB7,[0x391,0x342,0x399]),(0x1FBC,[0x391,0x399]),(0x1FC2,[0x1FCA,0x399]),
   (0x1FC3,[0x397,0x399]),(0x1FC4,[0x389,0x399]),(0x1FC6,[0x397,0x342]),
   (0x1FC7,[0x397,0x342,0x399]),(0x1FCC,[0x397,0x399]),(0x1FD2,[0x399,0x308,0x300]),
   (0x1FD3,[0x399,0x308,0x301]),(0x1FD6,[0x399,0x342]),(0x1FD7,[0x399,0x308,0x342]),
   (0x1FE2,[0x3A5,0x308,0x300]),(0x1FE3,[0x3A5,0x308,0x301]),(0x1FE4,[0x3A1,0x313]),
   (0x1FE6,[0x3A5,0x342]),(0x1FE7,[0x3A5,0x308,0x342]),(0x1FF2,[0x1FFA,0x399]),
   (0x1FF3,[0x3A9,0x399]),(0x1FF4,[0x38F,0x399]),(0x1FF6,[0x3A9,0x342]),
   (0x1FF7,[0x3A9,0x342,0x399]),(0x1FFC,[0x3A9,0x399]),(0xFB00,[0x46,0x46]),(0xFB01,[0x46,0x49]),
   (0xFB02,[0x46,0x4C]),(0xFB03,[0x46,0x46,0x49]),(0xFB04,[0x46,0x46,0x4C]),(0xFB05,[0x53,0x54]),
   (0xFB06,[0x53,0x54]),(0xFB13,[0x544,0x546]),(0xFB14,[0x544,0x535]),(0xFB15,[0x544,0x53B]),
   (0xFB16,[0x54E,0x546]),(0xFB17,[0x544,0x53D])]

def uppercaseChar (c : Char) : List Char :=
  match uppercaseExpansions.lookup c.toNat with
  | some points => points.map Char.ofNat
  | none =>
    match uppercaseRuns.find? (·.covers c.toNat) with
    | some run => [Char.ofNat (run.apply c.toNat)]
    | none => [c]

/-- The upper case of a text. -/
def uppercase (s : String) : String :=
  String.ofList (s.toList.flatMap uppercaseChar)

end Keystroke
