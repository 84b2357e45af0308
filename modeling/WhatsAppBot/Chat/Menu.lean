import WhatsAppBot.Bot.Ops

/-!
# Menu selections

`menu.py`: the selection ids, our label for each, and how a selection is routed.
-/

set_option autoImplicit false

namespace Chat.Menu

def serviceFinishing : String := "service_finishing"
def serviceCommercial : String := "service_commercial"
def serviceContracting : String := "service_contracting"
def viewPortfolio : String := "view_portfolio"
def requestQuote : String := "request_quote"
def requestVisit : String := "request_visit"
def requestCallback : String := "request_callback"
def talkToEmployee : String := "talk_to_employee"

/-- `LABELS`. -/
def labels : List (String × String) :=
  [(serviceFinishing, "تشطيب شقة أو فيلا"),
   (serviceCommercial, "تشطيب محل أو مكتب"),
   (serviceContracting, "أعمال مقاولات عامة"),
   (viewPortfolio, "أعمالنا السابقة"),
   (requestQuote, "طلب عرض سعر"),
   (requestVisit, "طلب معاينة"),
   (requestCallback, "طلب اتصال"),
   (talkToEmployee, "التحدث مع موظف")]

def label? (selectionId : String) : Option String := labels.lookup selectionId

def serviceSelections : List String := [serviceFinishing, serviceCommercial, serviceContracting]

def salesSelections : List String := [requestQuote, requestVisit, requestCallback]

def nextStepButtons : List (String × String) :=
  [requestQuote, requestVisit, talkToEmployee].map fun id => (id, (label? id).getD "")

def serviceAck (selectionId : String) : String :=
  "تمام، اختيار حضرتك: " ++ (label? selectionId).getD "" ++ ".\n\nمن فضلك اختر الخطوة التالية:"

/-- Our own label where the id is known, else the title, else the id. -/
def labelFor (selectionId title : String) : String :=
  match label? selectionId with
  | some label => label
  | none => if title ≠ "" then title else selectionId

end Chat.Menu
