import NetdataPlugins.Netdata

/-!
# Statistics of a qmail-send log (send.c)
-/
namespace NetdataPlugins.Send
open MemoryBlock CString Netdata

structure SendStatistics where
  startDelivery : ℤ
  endMsg : ℤ
  deliverySuccess : ℤ
  deliveryFailure : ℤ
  deliveryDeferral : ℤ
  deriving DecidableEq, Repr

def sendDataInit : SendStatistics := ⟨0, 0, 0, 0, 0⟩

def clearSendStatistics (_ : SendStatistics) : SendStatistics := ⟨0, 0, 0, 0, 0⟩

def printSendHdr (name : Bytes) : List Command :=
  [ndChart (lit "qmail") (some name) (some []) (some (lit "send qmail"))
      (some (lit "Qmail Send for " ++ name)) (some (lit "# send")) none (some (lit "qmail.send"))
      .area,
    ndDimension (lit "start_delivery") (some (lit "Start/End Delivery")) .absolute 1 1 .visible,
    ndDimension (lit "end_msg") (some (lit "End Msg")) .absolute (-1) 1 .visible,
    ndChart (lit "qmail") (some name) (some (lit "delivery")) (some (lit "send delivery"))
      (some (lit "Qmail Send delivery status for " ++ name)) (some (lit "# deliveries")) none
      (some (lit "qmail.send_delivery")) .line,
    ndDimension (lit "delivery_success") (some (lit "Success")) .absolute 1 1 .visible,
    ndDimension (lit "delivery_failure") (some (lit "Failure")) .absolute 1 1 .visible,
    ndDimension (lit "delivery_deferral") (some (lit "Deferral")) .absolute 1 1 .visible]

def printSendData (name : Bytes) (data : SendStatistics) (time : ℕ) : List Command :=
  block (ndBeginTime (lit "qmail") (some name) (some []) time)
    [(lit "start_delivery", data.startDelivery), (lit "end_msg", data.endMsg)] ++
  block (ndBeginTime (lit "qmail") (some name) (some (lit "delivery")) time)
    [(lit "delivery_success", data.deliverySuccess),
      (lit "delivery_failure", data.deliveryFailure),
      (lit "delivery_deferral", data.deliveryDeferral)]

def processSendLogLine (line : Bytes) (data : SendStatistics) : SendStatistics :=
  if contains line (lit "starting delivery") then
    { data with startDelivery := data.startDelivery + 1 }
  else if contains line (lit "end msg") then { data with endMsg := data.endMsg + 1 }
  else if let some ptr := strstr line (lit "delivery ") then
    if contains ptr (lit "success:") then
      { data with deliverySuccess := data.deliverySuccess + 1 }
    else if contains ptr (lit "failure:") then
      { data with deliveryFailure := data.deliveryFailure + 1 }
    else if contains ptr (lit "deferral:") then
      { data with deliveryDeferral := data.deliveryDeferral + 1 }
    else data
  else data

end NetdataPlugins.Send
